import StackMachine.Text.Cluster

/-!
# Backspaces

A line that was typed by hand may hold backspaces, each of which takes back what was typed
just before it. What it takes back is a cluster, not a code point: a letter goes together
with its accents. With nothing left to take back it does nothing.

While a line is read, only the lengths of its clusters are remembered, in bytes, and a
length is remembered in one byte. So of a cluster of 256 bytes or more a backspace takes
back only as many bytes as its length exceeds a multiple of 256, and the rest stays in the
line. From then on the lengths no longer fit the line, and a backspace may come to ask for a
part of a character. That cannot be done, and the line has no reading then (`settle?`).

A line without backspaces is its own reading (`settle?_of_not_mem`), and a cluster of less
than 256 bytes is taken back as if it had never been typed (`Draft.takeBack_add`).
-/

namespace StackMachine

namespace Text

/-- The backspace. -/
def backspace : Char := '\x08'

/-- How many bytes a text takes up. -/
def byteLength (cs : List Char) : Nat := cs.foldr (fun c n => c.utf8Size + n) 0

/-- Takes bytes off a text that is given with its last character first; nothing if they are
not whole characters. -/
def dropBytes : List Char → Nat → Option (List Char)
  | cs, 0 => some cs
  | [], _ + 1 => none
  | c :: rest, count + 1 =>
    if c.utf8Size ≤ count + 1 then dropBytes rest (count + 1 - c.utf8Size) else none

/-- **A line while it is read.** -/
structure Draft where
  /-- The characters so far, the last one first. -/
  typed : List Char := []
  /-- How many bytes each backspace to come takes off, the next one first. -/
  lengths : List Nat := []
  deriving DecidableEq, Inhabited

namespace Draft

/-- How many lengths can be told apart. -/
def lengthLimit : Nat := 256

/-- The length of a cluster as it is remembered. -/
def lengthOf (cluster : List Char) : Nat := byteLength cluster % lengthLimit

/-- Adds a cluster. -/
def add (d : Draft) (cluster : List Char) : Draft :=
  { typed := cluster.reverse ++ d.typed, lengths := lengthOf cluster :: d.lengths }

/-- Takes the last cluster back. -/
def takeBack (d : Draft) : Option Draft :=
  match d.lengths with
  | [] => some d
  | count :: lengths =>
    match dropBytes d.typed count with
    | none => none
    | some typed => some { typed := typed, lengths := lengths }

/-- Reads one cluster: a backspace takes the one before it back. -/
def read (d : Draft) (cluster : List Char) : Option Draft :=
  if cluster = [backspace] then d.takeBack else some (d.add cluster)

/-- Reads clusters one after the other. -/
def readAll (d : Draft) : List (List Char) → Option Draft
  | [] => some d
  | cluster :: rest =>
    match d.read cluster with
    | none => none
    | some next => next.readAll rest

end Draft

/-- **What a line reads once its backspaces have done their work.** -/
def settle? (line : List Char) : Option (List Char) :=
  (({} : Draft).readAll (clusters line)).map fun d => d.typed.reverse

/-! ## Small laws -/

@[simp] theorem byteLength_nil : byteLength [] = 0 := rfl

@[simp] theorem byteLength_cons (c : Char) (cs : List Char) :
    byteLength (c :: cs) = c.utf8Size + byteLength cs := rfl

theorem byteLength_append (front rest : List Char) :
    byteLength (front ++ rest) = byteLength front + byteLength rest := by
  induction front with
  | nil => simp
  | cons c front ih => simp [ih, Nat.add_assoc]

theorem byteLength_reverse (cs : List Char) : byteLength cs.reverse = byteLength cs := by
  induction cs with
  | nil => rfl
  | cons c cs ih => simp [byteLength_append, ih, Nat.add_comm]

/-- A text is taken off by its length. -/
theorem dropBytes_append (front rest : List Char) :
    dropBytes (front ++ rest) (byteLength front) = some rest := by
  induction front with
  | nil => cases rest <;> rfl
  | cons c front ih =>
    obtain ⟨k, hk⟩ : ∃ k, byteLength (c :: front) = k + 1 :=
      ⟨byteLength (c :: front) - 1, by
        have := Char.utf8Size_pos c
        simp only [byteLength_cons]
        omega⟩
    rw [hk, List.cons_append, dropBytes, ← hk, byteLength_cons]
    simp [ih]

/-- **A backspace takes back the cluster before it**, if the length of the cluster is
remembered in full. -/
theorem Draft.takeBack_add (d : Draft) {cluster : List Char}
    (h : byteLength cluster < lengthLimit) : (d.add cluster).takeBack = some d := by
  have hdrop : dropBytes (d.add cluster).typed (lengthOf cluster) = some d.typed := by
    unfold lengthOf
    rw [Nat.mod_eq_of_lt h, ← byteLength_reverse]
    exact dropBytes_append cluster.reverse d.typed
  unfold takeBack
  show (match dropBytes (d.add cluster).typed (lengthOf cluster) with
    | none => none
    | some typed => some { typed := typed, lengths := d.lengths }) = some d
  rw [hdrop]

theorem Draft.readAll_of_not_mem {clusters : List (List Char)} (h : [backspace] ∉ clusters)
    (d : Draft) :
    (d.readAll clusters).map Draft.typed = some (clusters.flatten.reverse ++ d.typed) := by
  induction clusters generalizing d with
  | nil => rfl
  | cons cluster rest ih =>
    have hne : cluster ≠ [backspace] := fun e => h (e ▸ List.mem_cons_self)
    have hrest : [backspace] ∉ rest := fun e => h (List.mem_cons_of_mem _ e)
    simp [readAll, read, hne, ih hrest, add]

/-- **A line without backspaces reads as it stands.** -/
theorem settle?_of_not_mem {line : List Char} (h : backspace ∉ line) :
    settle? line = some line := by
  have hc : [backspace] ∉ clusters line := fun hm =>
    h (flatten_clusters line ▸ List.mem_flatten.2 ⟨_, hm, List.mem_singleton.2 rfl⟩)
  have key := Draft.readAll_of_not_mem hc {}
  unfold settle?
  cases hr : ({} : Draft).readAll (clusters line) with
  | none => simp [hr] at key
  | some d =>
    rw [hr] at key
    simp only [Option.map_some, Option.some.injEq] at key
    simp [key, flatten_clusters]

end Text

end StackMachine
