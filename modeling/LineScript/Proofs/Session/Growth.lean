import LineScript.Proofs.Session.Upholding

set_option relaxedAutoImplicit false
set_option autoImplicit false

/-!
# Functions, log and output only grow

A function that has been defined stays as it is, and so does what has been logged or printed. The
name of a function is looked at in its header, but the function is defined only at the end of its
body, and in between its defaults are evaluated, which may define anything, that very name included.
So the name is looked at once more where the function is defined, and a definition that is refused
there changes nothing.

## Main definitions

* `LineScript.FunctionTable.Keyed` — a table whose functions go by the names they are found under.
* `LineScript.Session.Grows` — a session that has all that another one has.

## Main results

* `LineScript.FunctionTable.define_eq_ok` — a function is defined if its name is free, as the last
  one.
* `LineScript.Session.kept_grows` — everything that a run does keeps what there was.
* `LineScript.Session.grows_only` — so does every request of a host.
-/

namespace LineScript

/-! ## Tables of functions -/

namespace FunctionTable

/-- Every function goes by the name that it is found under. -/
def Keyed (t : FunctionTable) : Prop :=
  ∀ entry ∈ t.functions, entry.2.name = entry.1

variable {t t' : FunctionTable} {scope : Option String} {f : Function}

/-- **A definition** needs a free name, and puts the function under it after all others. -/
theorem define_eq_ok :
    t.define scope f = .ok t' ↔
      t.get? (qualify scope f.name) = none ∧
        t' =
          ⟨t.functions ++ [(qualify scope f.name, { f with name := qualify scope f.name })]⟩ := by
  cases hname : t.get? (qualify scope f.name) with
  | some taken => simp [define, contains, hname]
  | none => simp [define, contains, hname, @eq_comm _ t']

/-- A function is found as before after another one has been defined. -/
theorem get?_of_define (h : t.define scope f = .ok t') {name : String} {g : Function}
    (hg : t.get? name = some g) : t'.get? name = some g := by
  obtain ⟨-, rfl⟩ := define_eq_ok.1 h
  unfold get? at hg ⊢
  rw [Assoc.get?_append, hg]
  rfl

/-- A function is defined under the name that it has from then on. -/
theorem Keyed.define (ht : t.Keyed) (h : t.define scope f = .ok t') : t'.Keyed := by
  obtain ⟨-, rfl⟩ := define_eq_ok.1 h
  intro entry hentry
  rcases List.mem_append.1 hentry with hold | hnew
  · exact ht entry hold
  · obtain rfl := List.mem_singleton.1 hnew
    rfl

/-- In a table without functions, each stands under its name. -/
theorem keyed_empty : empty.Keyed := by
  intro entry hentry
  cases hentry

/-- What every definition keeps is kept where a library is added, up to the name that is taken. -/
theorem of_addLibrary {P : FunctionTable → Prop}
    (hdefine : ∀ {t t' : FunctionTable} {scope f}, P t → t.define scope f = .ok t' → P t')
    (ht : P t) (scope : String) (entries : List LibraryEntry) :
    P (addLibrary scope entries t).2 := by
  induction entries generalizing t with
  | nil => exact ht
  | cons entry rest ih =>
    unfold addLibrary
    cases h : t.define (some scope) entry.toFunction with
    | error e => exact ht
    | ok t' => exact ih (hdefine ht h)

end FunctionTable

namespace Session

/-- The functions of a new session are those of its libraries, under their names. -/
theorem keyed_ofSettings (settings : Settings) (loader : Option Loader) :
    (ofSettings settings loader).functions.Keyed := by
  change (addLibraries FunctionTable.empty settings.libs).Keyed
  unfold addLibraries
  generalize hstart : FunctionTable.empty = t
  have ht : t.Keyed := hstart ▸ FunctionTable.keyed_empty
  clear hstart
  induction settings.libs generalizing t with
  | nil => exact ht
  | cons name names ih =>
    rw [List.foldl_cons]
    refine ih _ ?_
    split
    · exact FunctionTable.of_addLibrary FunctionTable.Keyed.define ht _ _
    · exact ht

/-! ## Sessions -/

/-- Every function of `s` is one of `t`, under the same name and with the same parameters, defaults
and body; if functions go by their names in `s`, they do so in `t`; and `t` has the messages and the
output of `s` before its own. -/
structure Grows (s t : Session) : Prop where
  functions : ∀ {name f}, s.functions.get? name = some f → t.functions.get? name = some f
  keyed : s.functions.Keyed → t.functions.Keyed
  log : s.log.toList <+: t.log.toList
  output : s.output.toList <+: t.output.toList

variable {s t : Session}

/-- A session has grown from itself, by nothing. -/
theorem grows_refl (s : Session) : s.Grows s :=
  ⟨id, id, List.prefix_rfl, List.prefix_rfl⟩

namespace Grows

/-- One more message. -/
theorem logged (h : s.Grows t) (m : Message) : s.Grows (t.logged m) := by
  refine { h with log := h.log.trans ?_ }
  rw [Session.logged, Array.toList_push]
  exact List.prefix_append _ _

/-- One more line of output. -/
theorem printed (h : s.Grows t) (text : String) :
    s.Grows { t with output := t.output.push text } := by
  refine { h with output := h.output.trans ?_ }
  rw [Array.toList_push]
  exact List.prefix_append _ _

/-- One more function, which takes the place of none. -/
theorem define (h : s.Grows t) {scope : Option String} {f : Function} {functions : FunctionTable}
    (hdefine : t.functions.define scope f = .ok functions) :
    s.Grows { t with functions := functions } :=
  { h with
    functions := fun hf => FunctionTable.get?_of_define hdefine (h.functions hf)
    keyed := fun hs => (h.keyed hs).define hdefine }

end Grows

/-- **Everything that a run does** keeps the functions, the messages and the output of its start. It
makes no difference which error is on its way. -/
theorem kept_grows (start : Session) : Kept fun _ s => start.Grows s where
  native _ _ _ _ _ _ _ _ ht := ht
  update h _ _ := { h with }
  hide h := { h with }
  restore _ _ _ ht := { ht with }
  define h _ _ hdefine _ := h.define hdefine
  enter h _ := { h with }
  move h _ _ := { h with }
  print h text := h.printed text
  note h m _ := h.logged m
  raise h m _ := h.logged m
  settle h _ := h

/-- **A source that is run** has all its session had before. -/
theorem runner_grows {steps : Nat} {code : String} {zone : Option String}
    {o : Except ScriptError Value} (h : (runner steps code zone).runFrom s = .ok (o, t)) :
    s.Grows t :=
  runner_upholds (kept_grows s) steps code zone s (grows_refl s) o t h

/-! ## Definitions by the host and by sources -/

/-- A function of the host is defined, or the session stays as it is. -/
theorem runFrom_addNative (scope : Option String) (f : Function) (s : Session) :
    (addNative scope f).runFrom s =
      match s.functions.define scope f with
      | .ok functions => .ok (.ok (), { s with functions := functions })
      | .error e => .ok (.error e, s) := by
  unfold addNative
  rw [Action.runFrom_get_bind]
  cases s.functions.define scope f <;> rfl

/-- A host function that is added. -/
theorem addNative_grows {scope : Option String} {f : Function} {o : Except ScriptError Unit}
    (h : (addNative scope f).runFrom s = .ok (o, t)) : s.Grows t := by
  rw [runFrom_addNative] at h
  split at h
  next functions hdefine =>
    cases h
    exact (grows_refl s).define hdefine
  · cases h
    exact grows_refl s

/-- A library that is added, function by function. -/
theorem addLibrary_grows {scope : String} {entries : List LibraryEntry}
    {o : Except ScriptError Unit}
    (h : (addLibrary scope entries).runFrom s = .ok (o, t)) : s.Grows t := by
  unfold addLibrary at h
  rw [Action.runFrom_get_bind] at h
  dsimp only at h
  rw [Action.runFrom_set_bind] at h
  cases h
  refine FunctionTable.of_addLibrary (P := fun functions =>
    s.Grows { s with functions := functions })
    (fun hgrows hdefine => ?_) (grows_refl s) scope entries
  exact hgrows.define hdefine

/-! ## Names that are taken -/

section Taken

variable {name : String} {f : Function} (hf : s.functions.get? name = some f)

include hf

/-- A function that is found is there. -/
theorem contains_of_get? : s.functions.contains name = true := by
  rw [FunctionTable.contains, hf]
  rfl

/-- A function of the host is refused. -/
theorem runFrom_addNative_of_taken {scope : Option String} {g : Function}
    (hname : qualify scope g.name = name) :
    (addNative scope g).runFrom s = .ok (.error (.redefine name), s) := by
  have hdefine : s.functions.define scope g = .error (.redefine name) := by
    unfold FunctionTable.define
    simp only [hname, contains_of_get? hf, if_true]
  rw [runFrom_addNative, hdefine]

/-- A header is refused, before anything is evaluated. -/
theorem runFrom_prepareCapture_of_taken (run : SourceRunner) (params : Option String) :
    (prepareCapture run name params).runFrom s = .ok (.error (.redefine name), s) := by
  unfold prepareCapture
  rw [Action.runFrom_get_bind, if_pos (contains_of_get? hf)]
  rfl

/-- A gathered function is refused, if its name has been taken since its header. -/
theorem runFrom_defineCaptured_of_taken {capture : Capture} (hregister : capture.register = true)
    (hname : capture.name = name) :
    (defineCaptured capture).runFrom s = .ok (.error (.redefine name), s) := by
  unfold defineCaptured
  rw [if_pos hregister, Action.runFrom_get_bind]
  simp only [FunctionTable.define, qualify, hname, contains_of_get? hf, if_true]
  rfl

end Taken

/-- **Functions, log and output only grow.** The functions of a new session go by their names.
Through every request of a host that comes back, with a result or with a failure, the functions that
there were stay as they are, all functions go on going by their names, and the log and the output
only get longer. In particular a name that is taken is not defined again: a header, the end of a
gathered body and the host all fail, and leave the session as it was.

**Proof sketch.** What there was at the start is kept by everything that a run does (`kept_grows`):
a definition comes after the others and under a name that none of them has. So it is kept by the
whole request, whatever calls, defaults and further sources it goes through (`runner_upholds`). -/
theorem grows_only (steps : Nat) (s t : Session) :
    (∀ settings loader, (ofSettings settings loader).functions.Keyed) ∧
    (∀ code o, (execute steps code).runFrom s = .ok (o, t) → s.Grows t) ∧
    (∀ code zone o, (executeIn steps code zone).runFrom s = .ok (o, t) → s.Grows t) ∧
    (∀ id o, (executeFile steps id).runFrom s = .ok (o, t) → s.Grows t) ∧
    (∀ src o, (evaluate steps src).runFrom s = .ok (o, t) → s.Grows t) ∧
    (∀ name args o, (call steps name args).runFrom s = .ok (o, t) → s.Grows t) ∧
    (∀ scope f o, (addNative scope f).runFrom s = .ok (o, t) → s.Grows t) ∧
    (∀ scope entries o, (addLibrary scope entries).runFrom s = .ok (o, t) → s.Grows t) ∧
    ∀ name f, s.functions.get? name = some f →
      (∀ params, (prepareCapture (runner steps) name params).runFrom s =
        .ok (.error (.redefine name), s)) ∧
      (∀ capture : Capture, capture.register = true → capture.name = name →
        (defineCaptured capture).runFrom s = .ok (.error (.redefine name), s)) ∧
      ∀ scope g, qualify scope g.name = name →
        (addNative scope g).runFrom s = .ok (.error (.redefine name), s) := by
  have hkept := kept_grows s
  have hstart := grows_refl s
  have hrunner := runner_upholds hkept steps
  refine ⟨keyed_ofSettings, ?_, ?_, ?_, ?_, ?_, ?_, ?_, ?_⟩
  · intro code o h
    exact runner_grows h
  · intro code zone o h
    exact runner_grows h
  · intro id o h
    exact loadSource_upholds hkept hrunner id s hstart o t h
  · intro src o h
    exact evaluateWith_upholds hkept hrunner src s hstart o t h
  · intro name args o h
    exact callFunction_upholds hkept hrunner name args s hstart o t h
  · intro scope f o h
    exact addNative_grows h
  · intro scope entries o h
    exact addLibrary_grows h
  · intro name f hf
    refine ⟨runFrom_prepareCapture_of_taken hf _, ?_, ?_⟩
    · intro capture hregister hname
      exact runFrom_defineCaptured_of_taken hf hregister hname
    · intro scope g hname
      exact runFrom_addNative_of_taken hf hname

/-- A function that defines another one, `g`. -/
def definingFunction : Function :=
  { name := "make", params := [], body := .source "function g\nreturn 'first'\nend" }

/-- A function whose loop runs over a definition. -/
def repeatingFunction : Function :=
  { name := "again"
    params := []
    body := .source "foreach $c in ['a', 'b']\nfunction h\nreturn $c\nend\nend" }

/-- A session with both, in which errors are not thrown. -/
def definingSession : Session :=
  { settings := { throwErrors := false }
    functions := ⟨[("make", definingFunction), ("again", repeatingFunction)]⟩
    output := #["before"] }

/-- A source whose loop defines `h` twice, and whose definition of `g` has a default that defines
it. -/
def definingSource : String :=
  "again\nfunction g $x = \x7bmake\x7d\nreturn 'second'\nend"

/-- Both second definitions are refused. The functions `g` and `h` are those defined first, and
those that the session had are still there. -/
theorem grows_only_definingSession :
    ∃ o t, (execute 40 definingSource).runFrom definingSession = .ok (o, t) ∧
      t.log.toList.map Message.text =
        ["Cannot redefine function \x7bh\x7d", "Cannot redefine function \x7bg\x7d"] ∧
      (t.functions.get? "g").bind (fun f => f.body.source?) = some "return 'first'" ∧
      t.functions.get? "make" = some definingFunction ∧
      t.functions.get? "again" = some repeatingFunction ∧
      t.functions.Keyed ∧ ["before"] <+: t.output.toList := by
  have hobserved : ((execute 40 definingSource).runFrom definingSession).toOption.map
      (fun r => (r.2.log.toList.map Message.text,
        (r.2.functions.get? "g").bind fun f => f.body.source?)) =
          some (["Cannot redefine function \x7bh\x7d", "Cannot redefine function \x7bg\x7d"],
            some "return 'first'") := by
    decide +kernel
  rcases hrun : (execute 40 definingSource).runFrom definingSession with reason | ⟨o, t⟩
  · rw [hrun] at hobserved
    cases hobserved
  · rw [hrun] at hobserved
    obtain ⟨hlog, hg⟩ := Prod.mk.inj (Option.some.inj hobserved)
    have hgrows := (grows_only 40 definingSession t).2.1 definingSource o hrun
    have hkeyed : definingSession.functions.Keyed := by
      simp [FunctionTable.Keyed, definingSession, definingFunction, repeatingFunction]
    exact ⟨o, t, rfl, hlog, hg, hgrows.functions rfl, hgrows.functions rfl, hgrows.keyed hkeyed,
      hgrows.output⟩

end Session

end LineScript
