import StackMachine.Text.ClusterBreak

/-!
# Clusters of characters

A text is cut into clusters: what a reader takes for one character each. The cuts are those
of the extended grapheme clusters of the Unicode standard. A text is read from left to
right, and each character either continues the cluster begun before it or begins a new one.
That is decided by `continues`, which looks at nothing but the character and the cluster:
the rules of the standard that look further back (a flag has two halves, a linker stands
between consonants, a joiner stands behind a pictograph) never look beyond its beginning.

Nothing of the text is lost or put in another order (`flatten_clusters`), and no cluster is
empty (`ne_nil_of_mem_clusters`).
-/

namespace StackMachine

namespace Text

/-- Whether the class of a character satisfies a test. -/
def hasBreak (test : ClusterBreak → Bool) (c : Char) : Bool := test (.ofChar c)

/-- Whether a text begins with a character of a class. -/
def startsWith (b : ClusterBreak) (cs : List Char) : Bool :=
  cs.head?.any fun c => ClusterBreak.ofChar c == b

/-- Whether a cluster, with its last character first, ends in a consonant and signs of
which at least one links it to the next. -/
def endsLinked (begun : List Char) : Bool :=
  (begun.takeWhile (hasBreak ClusterBreak.isWithinConjunct)).any (hasBreak (· == .linker)) &&
    startsWith .consonant (begun.dropWhile (hasBreak ClusterBreak.isWithinConjunct))

/-- Whether a cluster, with its last character first, ends in a pictograph, marks and a
joiner. -/
def endsJoined : List Char → Bool
  | [] => false
  | last :: earlier =>
    hasBreak (· == .joiner) last &&
      startsWith .pictograph (earlier.dropWhile (hasBreak ClusterBreak.isMark))

/-- Whether a cluster, with its last character first, ends in one half of a flag that has
no other half yet. -/
def endsInHalfFlag (begun : List Char) : Bool :=
  (begun.takeWhile (hasBreak (· == .regional))).length % 2 == 1

/-- **Whether a character continues a cluster**, which is given with its last character
first. -/
def continues (begun : List Char) (c : Char) : Bool :=
  match begun with
  | [] => false
  | last :: _ =>
    let before := ClusterBreak.ofChar last
    let after := ClusterBreak.ofChar c
    if before.isControl || after.isControl then
      before == .carriageReturn && after == .lineFeed
    else
      after.isAttached || before == .prepend || before.formSyllable after ||
        (after == .consonant && endsLinked begun) ||
        (after == .pictograph && endsJoined begun) ||
        (after == .regional && endsInHalfFlag begun)

/-- Adds a character to the clusters so far, of which the last one comes first, each with
its last character first. -/
def addToClusters (done : List (List Char)) (c : Char) : List (List Char) :=
  match done with
  | [] => [[c]]
  | begun :: earlier =>
    if continues begun c then (c :: begun) :: earlier else [c] :: begun :: earlier

/-- **The clusters of a text.** -/
def clusters (cs : List Char) : List (List Char) :=
  ((cs.foldl addToClusters []).map List.reverse).reverse

/-! ## Small laws -/

/-- The text of clusters that are given back to front. -/
def readBack (done : List (List Char)) : List Char := done.flatten.reverse

theorem readBack_addToClusters (done : List (List Char)) (c : Char) :
    readBack (addToClusters done c) = readBack done ++ [c] := by
  unfold addToClusters readBack
  cases done with
  | nil => rfl
  | cons begun earlier => by_cases h : continues begun c = true <;> simp [h]

theorem readBack_foldl (cs : List Char) (done : List (List Char)) :
    readBack (cs.foldl addToClusters done) = readBack done ++ cs := by
  induction cs generalizing done with
  | nil => simp
  | cons c rest ih => simp [ih, readBack_addToClusters]

/-- **The clusters make up the text.** -/
theorem flatten_clusters (cs : List Char) : (clusters cs).flatten = cs := by
  have h := readBack_foldl cs []
  simpa [clusters, readBack, List.reverse_flatten] using h

theorem ne_nil_of_mem_addToClusters {done : List (List Char)} (h : ∀ g ∈ done, g ≠ [])
    (c : Char) : ∀ g ∈ addToClusters done c, g ≠ [] := by
  intro g hg
  unfold addToClusters at hg
  split at hg
  · simp_all
  · rename_i begun earlier
    split at hg
    · rcases List.mem_cons.1 hg with rfl | hg
      · exact List.cons_ne_nil _ _
      · exact h g (List.mem_cons_of_mem _ hg)
    · rcases List.mem_cons.1 hg with rfl | hg
      · exact List.cons_ne_nil _ _
      · exact h g hg

/-- No cluster is empty. -/
theorem ne_nil_of_mem_clusters {cs g : List Char} (h : g ∈ clusters cs) : g ≠ [] := by
  have key : ∀ (cs : List Char) (done : List (List Char)), (∀ g ∈ done, g ≠ []) →
      ∀ g ∈ cs.foldl addToClusters done, g ≠ [] := by
    intro cs
    induction cs with
    | nil => exact fun _ hd => hd
    | cons c rest ih => exact fun _ hd => ih _ (ne_nil_of_mem_addToClusters hd c)
  simp only [clusters, List.mem_reverse, List.mem_map] at h
  obtain ⟨r, hr, rfl⟩ := h
  simpa using key cs [] (fun _ hg => absurd hg List.not_mem_nil) r hr

end Text

end StackMachine
