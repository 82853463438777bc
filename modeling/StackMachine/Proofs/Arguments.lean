import StackMachine.Proofs.Numerals
import StackMachine.Proofs.Process

/-!
# Arguments and what they ask for

What a command line asks for can be put into arguments again. Each setting has one argument in the
long form (`Setting.argument`), and options are said by the settings they ask for (`Asks`), each of
them once and in any order; the capacity a stack has anyway need not be said (`Options.IsSaidBy`).
Such arguments are read as the options they say, whatever stands in a path or in a source: it may
hold further equals signs, look like an option, or be empty.

All of it rests on what a reader holds (`Reader.Has`). Taking the argument of a setting adds this
setting to what is held and nothing else (`take_argument`, `has_hold`), and no argument of any form
takes away a setting that is held (`has_of_take`). By the first a list of settings is read as it was
said; by the second what stands in the arguments, in whatever company, is asked for by the options.
As no options ask for two ways to run, a process runs in the way it was asked to
(`nothing_asked_is_lost`).
-/

namespace StackMachine

namespace CommandLine

/-- **The ways to run.** Only one can be asked for at a time. -/
inductive Way where
  /-- Run the file with this path. -/
  | file (path : String)
  /-- Run this source. -/
  | code (source : String)
  /-- Hold a dialogue. -/
  | dialogue
  deriving DecidableEq

/-- **What an argument sets.** -/
inductive Setting where
  /-- The way to run. -/
  | way (w : Way)
  /-- Trace the runs. -/
  | tracing
  /-- List each program before it runs. -/
  | listing
  /-- The room of the stack at the start. -/
  | capacity (n : Nat)
  deriving DecidableEq

/-- The argument for a setting, in the long form and with its value attached. -/
def Setting.argument : Setting → String
  | .way (.file path) => "--file=" ++ path
  | .way (.code source) => "--eval=" ++ source
  | .way .dialogue => "--repl"
  | .tracing => "--trace"
  | .listing => "--print-bytecode"
  | .capacity n => "--stack-capacity=" ++ Decimal.text n

/-- Whether a setting fits into the machine. -/
def Setting.Fits : Setting → Prop
  | .capacity n => n < capacityLimit
  | .way _ | .tracing | .listing => True

namespace Options

/-- Whether a setting is one of those that are asked for. -/
def Asks (o : Options) : Setting → Prop
  | .way (.file path) => o.file = some path
  | .way (.code source) => o.code = some source
  | .way .dialogue => o.interactive = true
  | .tracing => o.tracing = true
  | .listing => o.listing = true
  | .capacity n => o.capacity = n

/-- **Settings say options** if they are the settings asked for, each of them once, in any order.
Only the capacity that a stack has anyway may be left out. -/
structure IsSaidBy (o : Options) (settings : List Setting) : Prop where
  /-- Nothing is said twice. -/
  once : settings.Nodup
  /-- Nothing is said that is not asked for. -/
  only : ∀ s ∈ settings, o.Asks s
  /-- What is asked for is said. -/
  all : ∀ s, o.Asks s → s ≠ .capacity OperandStack.defaultCapacity → s ∈ settings

/-- The settings that options ask for, one after another. -/
def said (o : Options) : List Setting :=
  o.file.toList.map (fun path => Setting.way (.file path)) ++
    (o.code.toList.map (fun source => Setting.way (.code source)) ++
      ((if o.interactive then [Setting.way .dialogue] else []) ++
        ((if o.tracing then [Setting.tracing] else []) ++
          ((if o.listing then [Setting.listing] else []) ++ [Setting.capacity o.capacity]))))

theorem mem_said {o : Options} {s : Setting} : s ∈ o.said ↔ o.Asks s := by
  match s with
  | .way (.file path) => simp [said, Asks]
  | .way (.code source) => simp [said, Asks]
  | .way .dialogue => simp [said, Asks]
  | .tracing => simp [said, Asks]
  | .listing => simp [said, Asks]
  | .capacity n => simpa [said, Asks] using eq_comm

theorem nodup_said (o : Options) : o.said.Nodup := by
  unfold said
  cases o.file <;> cases o.code <;> cases o.interactive <;> cases o.tracing <;>
    cases o.listing <;> simp

/-- All options can be said. -/
theorem isSaidBy_said (o : Options) : o.IsSaidBy o.said :=
  ⟨o.nodup_said, fun _ => mem_said.1, fun _ h _ => mem_said.2 h⟩

/-- The order in which settings are said does not matter. -/
theorem IsSaidBy.perm {o : Options} {settings others : List Setting} (h : o.IsSaidBy settings)
    (hperm : settings.Perm others) : o.IsSaidBy others where
  once := hperm.nodup_iff.1 h.once
  only s hs := h.only s (hperm.mem_iff.2 hs)
  all s hasked hneeded := hperm.mem_iff.1 (h.all s hasked hneeded)

end Options

/-- The setting that a flag stands for; two flags ask for something else than a run. -/
def Flag.setting? : Flag → Option Setting
  | .interactive => some (.way .dialogue)
  | .tracing => some .tracing
  | .listing => some .listing
  | .help | .version => none

/-- The setting that an option stands for with a value, if the value has the right form. -/
def Valued.setting? (value : String) : Valued → Option Setting
  | .file => some (.way (.file value))
  | .code => some (.way (.code value))
  | .capacity => (readCapacity? value).map .capacity

/-- Reading the digits of a capacity gives the capacity, unless it is too great. -/
theorem readCapacity?_text (n : Nat) :
    readCapacity? (Decimal.text n) = if n < capacityLimit then some n else none := by
  have hsign : ∀ rest, Decimal.digits n ≠ '+' :: rest := by
    intro rest h
    have hdigit := Decimal.areDigits_digits n '+' (h ▸ List.mem_cons_self)
    exact absurd hdigit (by decide)
  have hfilled : Decimal.digits n ≠ [] := Nat.toDigits_ne_nil
  have hdigits : (Decimal.digits n).all Char.isDigit = true :=
    List.all_eq_true.2 (Decimal.areDigits_digits n)
  rw [readCapacity?, Decimal.text, String.toList_ofList]
  split
  · rename_i rest h
    exact absurd h (hsign rest)
  · simp [hfilled, hdigits]

namespace Reader

variable {r next : Reader} {s : Setting} {o : Options}

/-- Whether a reader holds a setting, settled and done with. -/
def Has (r : Reader) : Setting → Prop
  | .way (.file path) => r.file = some path
  | .way (.code source) => r.code = some source
  | .way .dialogue => r.interactive = true
  | .tracing => r.tracing = true
  | .listing => r.listing = true
  | .capacity n => r.capacity = some n

/-- Whether nothing is held in the place of a setting. -/
def IsFree (r : Reader) : Setting → Prop
  | .way (.file _) => r.file = none
  | .way (.code _) => r.code = none
  | .way .dialogue => r.interactive = false
  | .tracing => r.tracing = false
  | .listing => r.listing = false
  | .capacity _ => r.capacity = none

/-- The reader that holds one setting more. -/
def hold (r : Reader) : Setting → Reader
  | .way (.file path) => { r with file := some path }
  | .way (.code source) => { r with code := some source }
  | .way .dialogue => { r with interactive := true }
  | .tracing => { r with tracing := true }
  | .listing => { r with listing := true }
  | .capacity n => { r with capacity := some n }

/-- Stores a setting, as the flag or the option does that stands for it. -/
def put (r : Reader) : Setting → Except Stop Reader
  | .way (.file path) => r.assign path .file
  | .way (.code source) => r.assign source .code
  | .way .dialogue => r.raise .interactive
  | .tracing => r.raise .tracing
  | .listing => r.raise .listing
  | .capacity n => r.assign (Decimal.text n) .capacity

/-! ## The argument of a setting -/

/-- An option takes what stands behind the first equals sign, whatever it is. -/
theorem take_attached (r : Reader) (name value : String) {option : Valued}
    (hname : '=' ∉ name.toList) (hoption : ofLong? name.toList = some (.valued option)) :
    r.take ("--" ++ name ++ "=" ++ value) = r.settle.bind (·.assign value option) := by
  have htext : ("--" ++ name ++ "=" ++ value).toList
      = '-' :: '-' :: (name.toList ++ '=' :: value.toList) := by simp
  have hall : ∀ c ∈ name.toList, (c != '=') = true :=
    fun c hc => bne_iff_ne.2 fun h => hname (h ▸ hc)
  have hbefore : (name.toList ++ '=' :: value.toList).takeWhile (fun c => c != '=')
      = name.toList := by
    rw [List.takeWhile_append_of_pos hall]
    simp
  have hbehind : (name.toList ++ '=' :: value.toList).dropWhile (fun c => c != '=')
      = '=' :: value.toList := by
    rw [List.dropWhile_append_of_pos hall]
    simp
  rw [take, htext]
  show r.takeLong _ = _
  rw [takeLong, hbefore, hbehind, hoption]
  show r.takeValued option (some (String.ofList value.toList)) = _
  rw [String.ofList_toList, takeValued]
  cases r.settle <;> rfl

/-- A flag takes no value. -/
theorem take_bare (r : Reader) (name : String) {flag : Flag} (hname : '=' ∉ name.toList)
    (hflag : ofLong? name.toList = some (.flag flag)) :
    r.take ("--" ++ name) = r.settle.bind (·.raise flag) := by
  have htext : ("--" ++ name).toList = '-' :: '-' :: name.toList := by simp
  have hall : ∀ c ∈ name.toList, (c != '=') = true :=
    fun c hc => bne_iff_ne.2 fun h => hname (h ▸ hc)
  rw [take, htext]
  show r.takeLong _ = _
  rw [takeLong, List.takeWhile_eq_self_iff.2 hall, List.dropWhile_eq_nil_iff.2 hall, hflag]
  show r.takeFlag flag = _
  rw [takeFlag]
  cases r.settle <;> rfl

/-- **The argument of a setting stores the setting**, once what waits is settled. -/
theorem take_argument (r : Reader) (s : Setting) :
    r.take s.argument = r.settle.bind (·.put s) := by
  match s with
  | .way (.file path) => exact take_attached r "file" path (by decide) rfl
  | .way (.code source) => exact take_attached r "eval" source (by decide) rfl
  | .way .dialogue => exact take_bare r "repl" (by decide) rfl
  | .tracing => exact take_bare r "trace" (by decide) rfl
  | .listing => exact take_bare r "print-bytecode" (by decide) rfl
  | .capacity n => exact take_attached r "stack-capacity" (Decimal.text n) (by decide) rfl

theorem dashes_append_ne {name : String} (hname : name ≠ "") (value : String) :
    "--" ++ name ++ value ≠ "--" := by
  intro h
  have htext := congrArg String.toList h
  simp [hname] at htext

/-- No setting is taken for the end of the options. -/
theorem argument_ne_dashes (s : Setting) : s.argument ≠ "--" := by
  match s with
  | .way (.file path) => exact dashes_append_ne (by decide : "file=" ≠ "") path
  | .way (.code source) => exact dashes_append_ne (by decide : "eval=" ≠ "") source
  | .way .dialogue => exact (by decide : "--repl" ≠ "--")
  | .tracing => exact (by decide : "--trace" ≠ "--")
  | .listing => exact (by decide : "--print-bytecode" ≠ "--")
  | .capacity n => exact dashes_append_ne (by decide : "stack-capacity=" ≠ "") (Decimal.text n)

/-! ## Storing a setting -/

theorem has_hold (hfree : r.IsFree s) (t : Setting) : (r.hold s).Has t ↔ r.Has t ∨ s = t := by
  rcases s with (_ | _ | _) | _ | _ | _ <;> rcases t with (_ | _ | _) | _ | _ | _ <;>
    simp_all [IsFree, hold, Has]

@[simp] theorem waiting_hold : (r.hold s).waiting = r.waiting := by
  rcases s with (_ | _ | _) | _ | _ | _ <;> rfl

theorem assign_eq_ok_iff {value : String} {option : Valued} :
    r.assign value option = .ok next ↔
      ∃ s, option.setting? value = some s ∧ r.IsFree s ∧ r.hold s = next := by
  cases option with
  | file => cases hfile : r.file <;> simp [assign, Valued.setting?, IsFree, hold, hfile]
  | code => cases hcode : r.code <;> simp [assign, Valued.setting?, IsFree, hold, hcode]
  | capacity =>
    cases hcapacity : r.capacity <;> cases hread : readCapacity? value <;>
      simp [assign, Valued.setting?, IsFree, hold, hcapacity, hread]

theorem raise_eq_ok_iff {flag : Flag} :
    r.raise flag = .ok next ↔ ∃ s, flag.setting? = some s ∧ r.IsFree s ∧ r.hold s = next := by
  cases flag with
  | interactive =>
    cases hset : r.interactive <;> simp [raise, Flag.setting?, IsFree, hold, hset]
  | tracing => cases hset : r.tracing <;> simp [raise, Flag.setting?, IsFree, hold, hset]
  | listing => cases hset : r.listing <;> simp [raise, Flag.setting?, IsFree, hold, hset]
  | help => simp [raise, Flag.setting?]
  | version => simp [raise, Flag.setting?]

/-- **Storing succeeds** if the place is free and the value fits, and adds the setting. -/
theorem put_eq_ok_iff : r.put s = .ok next ↔ s.Fits ∧ r.IsFree s ∧ r.hold s = next := by
  match s with
  | .way (.file path) => simp [put, assign_eq_ok_iff, Valued.setting?, Setting.Fits]
  | .way (.code source) => simp [put, assign_eq_ok_iff, Valued.setting?, Setting.Fits]
  | .way .dialogue => simp [put, raise_eq_ok_iff, Flag.setting?, Setting.Fits]
  | .tracing => simp [put, raise_eq_ok_iff, Flag.setting?, Setting.Fits]
  | .listing => simp [put, raise_eq_ok_iff, Flag.setting?, Setting.Fits]
  | .capacity n =>
    by_cases hfits : n < capacityLimit <;>
      simp [put, assign_eq_ok_iff, Valued.setting?, Setting.Fits, readCapacity?_text, hfits]

/-! ## Nothing held is lost -/

theorem has_of_assign {value : String} {option : Valued} (h : r.assign value option = .ok next)
    (hs : r.Has s) : next.Has s := by
  obtain ⟨t, -, hfree, rfl⟩ := assign_eq_ok_iff.1 h
  exact (has_hold hfree s).2 (.inl hs)

theorem has_of_raise {flag : Flag} (h : r.raise flag = .ok next) (hs : r.Has s) : next.Has s := by
  obtain ⟨t, -, hfree, rfl⟩ := raise_eq_ok_iff.1 h
  exact (has_hold hfree s).2 (.inl hs)

theorem has_of_settle (h : r.settle = .ok next) (hs : r.Has s) : next.Has s := by
  rw [settle] at h
  split at h
  · cases h
    exact hs
  · cases h
  · exact has_of_assign h hs

theorem has_of_takeFlag {flag : Flag} (h : r.takeFlag flag = .ok next) (hs : r.Has s) :
    next.Has s := by
  rw [takeFlag] at h
  split at h
  · cases h
  · rename_i settled hsettled
    exact has_of_raise h (has_of_settle hsettled hs)

theorem has_of_takeValued {option : Valued} {attached : Option String}
    (h : r.takeValued option attached = .ok next) (hs : r.Has s) : next.Has s := by
  rw [takeValued] at h
  split at h
  · cases h
  · rename_i settled hsettled
    have hheld := has_of_settle hsettled hs
    split at h
    · exact has_of_assign h hheld
    · cases h
      exact hheld

theorem has_of_takeLong {cs : List Char} (h : r.takeLong cs = .ok next) (hs : r.Has s) :
    next.Has s := by
  rw [takeLong] at h
  split at h
  · cases h
  · cases h
  · exact has_of_takeFlag h hs
  · exact has_of_takeValued h hs

theorem has_of_takeShort {cs : List Char} (h : r.takeShort cs = .ok next) (hs : r.Has s) :
    next.Has s := by
  fun_induction takeShort r cs with
  | case1 r =>
    cases h
    exact hs
  | case2 => cases h
  | case3 r c rest option hoption => exact has_of_takeValued h hs
  | case4 => cases h
  | case5 r c rest flag hflag taken htaken ih => exact ih h (has_of_takeFlag htaken hs)

theorem has_of_takeValue {value : String} (h : r.takeValue value = .ok next) (hs : r.Has s) :
    next.Has s := by
  rw [takeValue] at h
  split at h
  · cases h
    exact hs
  · cases h

/-- **No argument, of whatever form, takes away a setting that is held.** -/
theorem has_of_take {argument : String} (h : r.take argument = .ok next) (hs : r.Has s) :
    next.Has s := by
  rw [take] at h
  split at h
  · exact has_of_takeLong h hs
  · exact has_of_takeShort h hs
  · exact has_of_takeValue h hs

theorem asks_of_finish (h : r.finish = .ok o) (hs : r.Has s) : o.Asks s := by
  rw [finish] at h
  split at h
  · cases h
  · rename_i settled hsettled
    split at h
    · cases h
    · have hheld := has_of_settle hsettled hs
      cases h
      match s with
      | .way (.file path) => exact hheld
      | .way (.code source) => exact hheld
      | .way .dialogue => exact hheld
      | .tracing => exact hheld
      | .listing => exact hheld
      | .capacity n => exact congrArg (fun held => held.getD OperandStack.defaultCapacity) hheld

/-- What is held is asked for in the end. -/
theorem asks_of_readAll {arguments : List String} (h : r.readAll arguments = .ok o)
    (hs : r.Has s) : o.Asks s := by
  fun_induction readAll r arguments with
  | case1 r => exact asks_of_finish h hs
  | case2 r rest hrest => exact asks_of_finish h hs
  | case3 => cases h
  | case4 => cases h
  | case5 r argument rest hother next hnext ih => exact ih h (has_of_take hnext hs)

/-- **What stands in the arguments is asked for**, whatever else stands there. -/
theorem asks_of_mem {arguments : List String} (h : r.readAll arguments = .ok o)
    (hs : s.argument ∈ arguments) : o.Asks s := by
  fun_induction readAll r arguments with
  | case1 r => cases hs
  | case2 r rest hrest =>
    rw [List.isEmpty_iff.1 hrest, List.mem_singleton] at hs
    exact absurd hs (argument_ne_dashes s)
  | case3 => cases h
  | case4 => cases h
  | case5 r argument rest hother next hnext ih =>
    obtain rfl | hrest := List.mem_cons.1 hs
    · rw [take_argument] at hnext
      cases hsettled : r.settle with
      | error stop =>
        rw [hsettled] at hnext
        cases hnext
      | ok settled =>
        rw [hsettled] at hnext
        obtain ⟨-, hfree, rfl⟩ := put_eq_ok_iff.1 hnext
        exact asks_of_readAll h ((has_hold hfree s).2 (.inr rfl))
    · exact ih h hrest

/-! ## Reading what was said -/

/-- A place that holds nothing but what is asked for, and not that, is empty. -/
theorem eq_none_of_asked {α : Type} {held asked : Option α} {a : α}
    (hheld : ∀ b, held = some b → asked = some b) (hasked : asked = some a)
    (hnew : held ≠ some a) : held = none := by
  refine Option.eq_none_iff_forall_ne_some.2 fun b hb => hnew ?_
  rw [hb, ← hheld b hb, hasked]

/-- There is room for a setting that is asked for and not held yet. -/
theorem isFree_of_asks (hheld : ∀ t, r.Has t → o.Asks t) (hasked : o.Asks s) (hnew : ¬r.Has s) :
    r.IsFree s := by
  match s with
  | .way (.file path) =>
    exact eq_none_of_asked (fun other => hheld (.way (.file other))) hasked hnew
  | .way (.code source) =>
    exact eq_none_of_asked (fun other => hheld (.way (.code other))) hasked hnew
  | .way .dialogue => exact Bool.eq_false_iff.2 hnew
  | .tracing => exact Bool.eq_false_iff.2 hnew
  | .listing => exact Bool.eq_false_iff.2 hnew
  | .capacity n =>
    exact eq_none_of_asked (fun other hother => congrArg some (hheld (.capacity other) hother))
      (congrArg some hasked) hnew

/-- **Settings that were said are held in the end**, each of them and besides them only what was
held before. The settings still to come are asked for and not held yet, which is why there is
room for each when its turn comes. -/
theorem readAll_settings {settings : List Setting} (hwaiting : r.waiting = none)
    (hheld : ∀ t, r.Has t → o.Asks t) (hfits : ∀ t ∈ settings, t.Fits)
    (honly : ∀ t ∈ settings, o.Asks t) (honce : settings.Nodup)
    (hnew : ∀ t ∈ settings, ¬r.Has t) :
    ∃ last : Reader, r.readAll (settings.map Setting.argument) = last.finish ∧
      last.waiting = none ∧ ∀ t, last.Has t ↔ r.Has t ∨ t ∈ settings := by
  induction settings generalizing r with
  | nil => exact ⟨r, rfl, hwaiting, fun t => by simp⟩
  | cons s rest ih =>
    obtain ⟨hsfits, hfits⟩ := List.forall_mem_cons.1 hfits
    obtain ⟨hasked, honly⟩ := List.forall_mem_cons.1 honly
    obtain ⟨hsnew, hnew⟩ := List.forall_mem_cons.1 hnew
    obtain ⟨hfresh, honce⟩ := List.nodup_cons.1 honce
    have hfree := isFree_of_asks hheld hasked hsnew
    have hsettle : r.settle = .ok r := by rw [settle, hwaiting]
    have htake : r.take s.argument = .ok (r.hold s) := by
      rw [take_argument, hsettle]
      exact put_eq_ok_iff.2 ⟨hsfits, hfree, rfl⟩
    have hheld' : ∀ t, (r.hold s).Has t → o.Asks t := by
      intro t ht
      obtain ht | rfl := (has_hold hfree t).1 ht
      · exact hheld t ht
      · exact hasked
    have hnew' : ∀ t ∈ rest, ¬(r.hold s).Has t := by
      intro t ht hhas
      obtain hhas | rfl := (has_hold hfree t).1 hhas
      · exact hnew t ht hhas
      · exact hfresh ht
    obtain ⟨last, hread, hlast, hhas⟩ :=
      ih (waiting_hold.trans hwaiting) hheld' hfits honly honce hnew'
    refine ⟨last, ?_, hlast, fun t => ?_⟩
    · rw [List.map_cons, readAll.eq_3 _ _ _ (argument_ne_dashes s), htake]
      exact hread
    · rw [hhas, has_hold hfree, List.mem_cons, or_assoc, eq_comm]

/-- A reader that holds what options ask for ends with these options. -/
theorem finish_eq_ok (hsingle : o.IsSingle) (hwaiting : r.waiting = none)
    (hheld : ∀ t, r.Has t → o.Asks t)
    (hall : ∀ t, o.Asks t → t ≠ .capacity OperandStack.defaultCapacity → r.Has t) :
    r.finish = .ok o := by
  have hfile : r.file = o.file := Option.ext fun path =>
    ⟨hheld (.way (.file path)), fun h => hall (.way (.file path)) h (by simp)⟩
  have hcode : r.code = o.code := Option.ext fun source =>
    ⟨hheld (.way (.code source)), fun h => hall (.way (.code source)) h (by simp)⟩
  have hinteractive : r.interactive = o.interactive :=
    Bool.eq_iff_iff.2 ⟨hheld (.way .dialogue), fun h => hall (.way .dialogue) h (by simp)⟩
  have htracing : r.tracing = o.tracing :=
    Bool.eq_iff_iff.2 ⟨hheld .tracing, fun h => hall .tracing h (by simp)⟩
  have hlisting : r.listing = o.listing :=
    Bool.eq_iff_iff.2 ⟨hheld .listing, fun h => hall .listing h (by simp)⟩
  have hcapacity : r.capacity.getD OperandStack.defaultCapacity = o.capacity := by
    cases hset : r.capacity with
    | some n => exact (hheld (.capacity n) hset).symm
    | none =>
      by_contra hne
      have hhas : r.capacity = some o.capacity :=
        hall (.capacity o.capacity) rfl fun h => hne (Setting.capacity.inj h).symm
      cases hset.symm.trans hhas
  have hwhole : r.isTorn = false := by
    rw [isTorn_eq_false_iff, hfile, hcode, hinteractive]
    exact ⟨hsingle.file_code, hsingle.file_interactive, hsingle.code_interactive⟩
  rw [finish, settle, hwaiting]
  show (if r.isTorn = true then _ else _) = _
  rw [if_neg (Bool.eq_false_iff.1 hwhole), hfile, hcode, hinteractive, htracing, hlisting,
    hcapacity]

end Reader

theorem Options.Asks.fits {o : Options} {s : Setting} (h : o.Asks s)
    (hsmall : o.capacity < capacityLimit) : s.Fits := by
  match s with
  | .way _ | .tracing | .listing => trivial
  | .capacity n =>
    have hcapacity : o.capacity = n := h
    exact hcapacity ▸ hsmall

/-- Settings are read as the options they say. -/
theorem parse_eq_ok {o : Options} {settings : List Setting} (hsingle : o.IsSingle)
    (hsmall : o.capacity < capacityLimit) (hsaid : o.IsSaidBy settings) :
    parse (settings.map Setting.argument) = .ok o := by
  have hnothing : ∀ t, ¬({} : Reader).Has t := by
    intro t
    rcases t with (_ | _ | _) | _ | _ | _ <;> exact nofun
  obtain ⟨last, hread, hwaiting, hhas⟩ := Reader.readAll_settings (o := o) (r := {}) rfl
    (fun t ht => absurd ht (hnothing t)) (fun t ht => (hsaid.only t ht).fits hsmall) hsaid.only
    hsaid.once fun t _ => hnothing t
  rw [parse, hread]
  refine Reader.finish_eq_ok hsingle hwaiting (fun t ht => ?_) fun t hasked hneeded => ?_
  · exact hsaid.only t (((hhas t).1 ht).resolve_left (hnothing t))
  · exact (hhas t).2 (.inr (hsaid.all t hasked hneeded))

end CommandLine

namespace Program

open CommandLine (Way)

/-- **What a process does** that runs in one way, from what it finds around it. -/
def perform (world : Surroundings) (o : CommandLine.Options) : Way → Result
  | .file path =>
    let (s, outcome) := (session o).load (world.files path)
    conclude o s (endingOf outcome)
  | .code source =>
    let (s, outcome) := (session o).evaluate source
    conclude o s (endingOf outcome)
  | .dialogue =>
    let (d, ending) :=
      (Dialogue.start (session o)).converse world.prompts (Text.byteLines world.input)
    conclude o d.session ending

/-- **Each way to run that is asked for is taken.** No other one stands before it, although the
process looks for a file first and for a dialogue last. -/
theorem runOptions_eq_perform {o : CommandLine.Options} (hsingle : o.IsSingle)
    (world : Surroundings) {w : Way} (hasked : o.Asks (.way w)) :
    runOptions world o = perform world o w := by
  match w with
  | .file path =>
    have hfile : o.file = some path := hasked
    rw [runOptions, hfile]
    rfl
  | .code source =>
    have hcode : o.code = some source := hasked
    have hfile : o.file = none := hsingle.file_code.resolve_right (by simp [hcode])
    rw [runOptions, hfile, hcode]
    rfl
  | .dialogue =>
    have hinteractive : o.interactive = true := hasked
    have hfile : o.file = none := hsingle.file_interactive.resolve_right (by simp [hinteractive])
    have hcode : o.code = none := hsingle.code_interactive.resolve_right (by simp [hinteractive])
    rw [runOptions, hfile, hcode, hinteractive]
    rfl

end Program

namespace CommandLine

/-- **Nothing that is asked for is lost on the command line.** All options can be said in
arguments. If they ask for one way to run at the most, and for a capacity that fits, all arguments
that say them, in whatever order, are read as these options again. And whatever the arguments are,
in whatever forms and company: if they are read at all, they ask for one way to run at the most,
each argument for a setting that stands among them has set it, and a process runs in the way it
was asked to. -/
theorem nothing_asked_is_lost (o : Options) :
    (∃ settings, o.IsSaidBy settings) ∧
      (o.IsSingle → o.capacity < capacityLimit →
        ∀ settings, o.IsSaidBy settings → parse (settings.map Setting.argument) = .ok o) ∧
      ∀ arguments, parse arguments = .ok o →
        o.IsSingle ∧ (∀ s : Setting, s.argument ∈ arguments → o.Asks s) ∧
          ∀ world w, o.Asks (.way w) →
            Program.run world arguments = Program.perform world o w := by
  refine ⟨⟨o.said, o.isSaidBy_said⟩, fun hsingle hsmall settings => parse_eq_ok hsingle hsmall,
    fun arguments hparse => ?_⟩
  have hsingle : o.IsSingle := Reader.isSingle_of_readAll hparse
  refine ⟨hsingle, fun s hs => Reader.asks_of_mem hparse hs, fun world w hasked => ?_⟩
  rw [Program.run, hparse]
  exact Program.runOptions_eq_perform hsingle world hasked

/-- A source that looks like an option and holds a second equals sign, behind the greatest capacity
there is: the arguments are read as they were meant, and the source is run. -/
theorem nothing_asked_is_lost_hidden_option :
    parse ["--trace", "--stack-capacity=18446744073709551615", "--eval=--repl=TRUE"]
        = .ok { code := some "--repl=TRUE", tracing := true, capacity := 18446744073709551615 } ∧
      ∀ world, Program.run world
          ["--trace", "--stack-capacity=18446744073709551615", "--eval=--repl=TRUE"]
        = Program.perform world
          { code := some "--repl=TRUE", tracing := true, capacity := 18446744073709551615 }
          (.code "--repl=TRUE") := by
  have hmain := nothing_asked_is_lost
    { code := some "--repl=TRUE", tracing := true, capacity := 18446744073709551615 }
  have harguments : [.tracing, .capacity 18446744073709551615, .way (.code "--repl=TRUE")].map
      Setting.argument
      = ["--trace", "--stack-capacity=18446744073709551615", "--eval=--repl=TRUE"] := by
    decide +kernel
  have hsaid : Options.IsSaidBy
      { code := some "--repl=TRUE", tracing := true, capacity := 18446744073709551615 }
      [.tracing, .capacity 18446744073709551615, .way (.code "--repl=TRUE")] :=
    (Options.isSaidBy_said _).perm (by decide +kernel)
  have hparse := hmain.2.1 ⟨.inl rfl, .inl rfl, .inr rfl⟩ (by decide) _ hsaid
  rw [harguments] at hparse
  exact ⟨hparse, fun world => (hmain.2.2 _ hparse).2.2 world _ rfl⟩

end CommandLine

end StackMachine
