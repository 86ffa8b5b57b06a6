import LineScript.Proofs.Statement.Shape

set_option relaxedAutoImplicit false
set_option autoImplicit false

/-!
# Causes of failure

Reading lines, formulas and lists fails with causes of its own kind, and so does working with
values, variables and functions. None of them is an error that was raised: errors are raised by runs
alone.

## Main definitions

* `LineScript.Statement.Malformed` — the causes for which a line is no statement.
* `LineScript.ScriptError.raised?`, `LineScript.raisedIn?` — the message of an error that was
  raised.
* `LineScript.FunctionTable.Plain` — a table whose host functions pass on no error that was raised.

## Main results

* `LineScript.Statement.parse_malformed` — reading a line fails for no other cause.
* `LineScript.Formula.raisedIn?_tokens`, `LineScript.Store.raisedIn?_set`, … — the causes of reading
  and writing were not raised.
* `LineScript.Store.recoverable_of_bind`, `LineScript.Function.recoverable_of_mem_bind` — what can
  be wrong with a parameter is only warned of.
* `LineScript.Session.plain_ofSettings` — the functions of the libraries pass on nothing raised.
-/

namespace LineScript

/-! ## Statements -/

namespace Statement

/-- The line is no command, or a construct has the wrong form. -/
def Malformed (e : ScriptError) : Prop :=
  e = .invalidCommand ∨ ∃ construct, e = .invalidSyntax construct

/-- After a malformed line the run does not go on. -/
theorem Malformed.not_recoverable {e : ScriptError} (h : Malformed e) : e.recoverable = false := by
  rcases h with rfl | ⟨construct, rfl⟩
  · rfl
  · rfl

/-- A declaration fails only where nothing is declared. -/
theorem parseDeclare_malformed {lifetime : Lifetime} {params : Option String} {e : ScriptError}
    (h : parseDeclare lifetime params = .error e) : Malformed e := by
  cases params with
  | none =>
    cases h
    exact .inr ⟨_, rfl⟩
  | some list => cases h

/-- An assignment fails for its form alone: without a path, without an operator, or without a
formula. -/
theorem parseSet_malformed {text : String} {e : ScriptError} (h : parseSet text = .error e) :
    Malformed e := by
  unfold parseSet at h
  split at h
  · cases h
    exact .inr ⟨_, rfl⟩
  · dsimp only at h
    split at h
    · cases h
      exact .inr ⟨_, rfl⟩
    · split at h
      · cases h
        exact .inr ⟨_, rfl⟩
      · cases h

/-- A counting loop fails for the form of its header alone. -/
theorem parseFor_malformed {text : String} {e : ScriptError} (h : parseFor text = .error e) :
    Malformed e := by
  unfold parseFor at h
  split at h
  · cases h
  · cases h
    exact .inr ⟨_, rfl⟩

/-- A loop over a collection fails for the form of its header alone. -/
theorem parseForeach_malformed {text : String} {e : ScriptError}
    (h : parseForeach text = .error e) :
    Malformed e := by
  unfold parseForeach at h
  dsimp only at h
  split at h
  · cases h
  · cases h
    exact .inr ⟨_, rfl⟩

/-- The header of a function fails for its form alone. -/
theorem parseFunction_malformed {text : String} {e : ScriptError}
    (h : parseFunction text = .error e) :
    Malformed e := by
  unfold parseFunction at h
  split at h
  · cases h
  · cases h
    exact .inr ⟨_, rfl⟩

/-- A command fails for the form of its construct, or because no construct goes by that word. -/
theorem ofCommand_malformed {word : String} {params : Option String} {e : ScriptError}
    (h : ofCommand word params = .error e) : Malformed e := by
  unfold ofCommand at h
  dsimp only at h
  -- only the words of statements with parts of their own can be refused
  split at h
  all_goals first
    | cases h
    | exact parseDeclare_malformed h
    | exact parseSet_malformed h
    | exact parseFor_malformed h
    | exact parseForeach_malformed h
    | exact parseFunction_malformed h
    | (split at h <;> cases h)

/-- **A line that is no statement** is malformed. -/
theorem parse_malformed {line : String} {e : ScriptError} (h : parse line = .error e) :
    Malformed e := by
  unfold parse at h
  split at h
  · cases h
    exact .inl rfl
  · exact ofCommand_malformed h

end Statement

/-! ## Errors that were raised -/

/-- The message of an error that was raised. -/
def ScriptError.raised? : ScriptError → Option Message
  | .raised m => some m
  | _ => none

/-- The message of the error that an outcome passes on, if that error was raised. -/
def raisedIn? {α : Type} : Except ScriptError α → Option Message
  | .error e => e.raised?
  | .ok _ => none

/-- What a run goes on after was not raised. -/
theorem ScriptError.raised?_of_recoverable {e : ScriptError} (h : e.recoverable = true) :
    e.raised? = none := by
  cases e with
  | raised m => cases h
  | _ => rfl

/-- That a line is malformed was not raised. -/
theorem Statement.Malformed.unraised {e : ScriptError} (h : Malformed e) : e.raised? = none := by
  rcases h with rfl | ⟨construct, rfl⟩
  · rfl
  · rfl

/-- The cause of a failure, where nothing raised is passed on. -/
theorem unraised_of_eq_error {α : Type} {outcome : Except ScriptError α} {e : ScriptError}
    (h : raisedIn? outcome = none) (he : outcome = .error e) : e.raised? = none := by
  rw [he] at h
  exact h

/-- Nothing is raised by one outcome and a next one that raise nothing. -/
theorem raisedIn?_bind {α β : Type} {outcome : Except ScriptError α}
    {next : α → Except ScriptError β}
    (h : raisedIn? outcome = none) (hnext : ∀ a, raisedIn? (next a) = none) :
    raisedIn? (outcome >>= next) = none := by
  cases outcome with
  | error e => exact h
  | ok a => exact hnext a

/-- Nothing is raised over a list if nothing is raised by any of its items. By induction on the
list. -/
theorem raisedIn?_mapM {α β : Type} {f : α → Except ScriptError β} (h : ∀ a, raisedIn? (f a) = none)
    (items : List α) : raisedIn? (items.mapM f) = none := by
  induction items with
  | nil => rfl
  | cons a items ih =>
    rw [List.mapM_cons]
    exact raisedIn?_bind (h a) fun b => raisedIn?_bind ih fun bs => rfl

/-! ### Lines and lists -/

/-- Reading a line raises nothing. -/
theorem Statement.raisedIn?_parse (line : String) : raisedIn? (parse line) = none := by
  cases h : parse line with
  | ok st => rfl
  | error e => exact (parse_malformed h).unraised

namespace Nesting

/-- Taking in a character raises nothing. -/
theorem raisedIn?_feed (n : Nesting) (c : Char) : raisedIn? (n.feed c) = none := by
  unfold feed
  split
  · rfl
  · unfold feedPlain
    repeat' split
    all_goals rfl

/-- Taking a list apart raises nothing, by induction on its text. -/
theorem raisedIn?_pieces (n : Nesting) (cs : List Char) : raisedIn? (n.pieces cs) = none := by
  induction cs generalizing n with
  | nil =>
    unfold pieces
    cases n.unterminated? with
    | none => rfl
    | some delimiter => rfl
  | cons c cs ih =>
    unfold pieces
    split
    · cases hpieces : n.pieces cs with
      | error e => exact unraised_of_eq_error (ih n) hpieces
      | ok ps => rfl
    · cases hfeed : n.feed c with
      | error e => exact unraised_of_eq_error (raisedIn?_feed n c) hfeed
      | ok n' =>
        cases hpieces : n'.pieces cs with
        | error e =>
          simp only [hpieces]
          exact unraised_of_eq_error (ih n') hpieces
        | ok ps =>
          simp only [hpieces]
          rfl

/-- Reading up to the end of a literal raises nothing, by induction on the text. -/
theorem raisedIn?_takeLiteral (n : Nesting) (cs : List Char) :
    raisedIn? (n.takeLiteral cs) = none := by
  induction cs generalizing n with
  | nil =>
    unfold takeLiteral
    cases n.unterminated? with
    | none => rfl
    | some delimiter => rfl
  | cons c cs ih =>
    unfold takeLiteral
    cases hfeed : n.feed c with
    | error e => exact unraised_of_eq_error (raisedIn?_feed n c) hfeed
    | ok n' =>
      cases htake : n'.takeLiteral cs with
      | error e =>
        simp only [htake]
        split
        · rfl
        · exact unraised_of_eq_error (ih n') htake
      | ok taken =>
        simp only [htake]
        split
        · rfl
        · rfl

end Nesting

/-- Splitting a list raises nothing. -/
theorem raisedIn?_splitList (src : String) : raisedIn? (splitList src) = none := by
  unfold splitList
  split
  · rfl
  · cases hpieces : Nesting.start.pieces src.toList with
    | error e => exact unraised_of_eq_error (Nesting.raisedIn?_pieces _ _) hpieces
    | ok ps => rfl

/-- Reading the declarations of a list raises nothing. -/
theorem Assignment.raisedIn?_parseList (list : String) : raisedIn? (parseList list) = none := by
  unfold parseList
  cases hsplit : splitList list with
  | error e => exact unraised_of_eq_error (raisedIn?_splitList list) hsplit
  | ok items =>
    refine raisedIn?_mapM (fun item => ?_) _
    unfold parse
    cases Pattern.assignment? item.toList with
    | none => rfl
    | some found => rfl

/-! ### Formulas and operators -/

/-- Reading one lexeme raises nothing. -/
theorem Lexeme.raisedIn?_read (c : Char) (cs : List Char) : raisedIn? (read c cs) = none := by
  unfold read
  cases literal? c with
  | some opener =>
    obtain ⟨n, make⟩ := opener
    cases htake : n.takeLiteral cs with
    | error e =>
      simp only [htake]
      exact unraised_of_eq_error (Nesting.raisedIn?_takeLiteral _ cs) htake
    | ok taken =>
      simp only [htake]
      rfl
  | none =>
    dsimp only
    repeat' split
    all_goals rfl

namespace Shunt

/-- Looking for the open parenthesis raises nothing, by induction on what waits. -/
theorem raisedIn?_closeParen (output : List Token) (pending : List Pending) :
    raisedIn? (closeParen output pending) = none := by
  fun_induction closeParen output pending with
  | case1 => rfl
  | case2 => rfl
  | case3 output p pending hp ih => exact ih

/-- Putting out all that waits raises nothing, by induction on it. -/
theorem raisedIn?_flush (output : List Token) (pending : List Pending) :
    raisedIn? (flush output pending) = none := by
  fun_induction flush output pending with
  | case1 => rfl
  | case2 => rfl
  | case3 output p pending hp ih => exact ih

/-- Taking in a lexeme raises nothing. -/
theorem raisedIn?_feed (st : Shunt) (lexeme : Lexeme) : raisedIn? (st.feed lexeme) = none := by
  fun_cases feed st lexeme with
  | case7 hexpects e hclose => exact unraised_of_eq_error (raisedIn?_closeParen _ _) hclose
  | _ => rfl

/-- Reading a text raises nothing. By induction along the scan: each lexeme is read and taken in. -/
theorem raisedIn?_scan (st : Shunt) (cs : List Char) : raisedIn? (st.scan cs) = none := by
  fun_induction scan st cs with
  | case1 st => rfl
  | case2 st c cs hblank ih => exact ih
  | case3 st c cs hblank e hread => exact unraised_of_eq_error (Lexeme.raisedIn?_read c cs) hread
  | case4 st c cs hblank lexeme rest hread hlt e hfeed =>
    exact unraised_of_eq_error (raisedIn?_feed st lexeme) hfeed
  | case5 st c cs hblank lexeme rest hread hlt st' hfeed ih => exact ih

/-- The end of a formula raises nothing. -/
theorem raisedIn?_finish (st : Shunt) : raisedIn? st.finish = none := by
  unfold finish
  split
  · cases hflush : flush st.output st.pending with
    | error e => exact unraised_of_eq_error (raisedIn?_flush _ _) hflush
    | ok output => rfl
  · rfl

end Shunt

/-- Turning a formula into tokens raises nothing. -/
theorem Formula.raisedIn?_tokens (src : String) : raisedIn? (tokens src) = none := by
  unfold tokens
  cases hscan : Shunt.start.scan (Text.trimChars src.toList) with
  | error e => exact unraised_of_eq_error (Shunt.raisedIn?_scan _ _) hscan
  | ok st => exact Shunt.raisedIn?_finish st

/-- A result that only a zero divisor refuses. -/
theorem raisedIn?_elim (v : Option Value) :
    raisedIn? (v.elim (.error .divisionByZero) .ok) = none := by
  cases v with
  | none => rfl
  | some v => rfl

/-- An operator raises nothing: it fails only for dividing by zero. -/
theorem Operator.raisedIn?_apply (op : Operator) (lhs rhs : Value) :
    raisedIn? (op.apply lhs rhs) = none := by
  cases op with
  | div => exact raisedIn?_elim _
  | rem => exact raisedIn?_elim _
  | _ => rfl

/-- Combining the old value with the new one raises nothing. -/
theorem AssignMode.raisedIn?_combine (mode : AssignMode) (current rhs : Value) :
    raisedIn? (mode.combine current rhs) = none := by
  cases mode with
  | div => exact raisedIn?_elim _
  | _ => rfl

/-! ### Variables and blocks -/

/-- Reading the keys of a path raises nothing, by induction on its segments. -/
theorem Path.raisedIn?_parseKeys (path : String) (segments : List String) :
    raisedIn? (parseKeys path segments) = none := by
  induction segments with
  | nil => rfl
  | cons segment rest ih =>
    unfold parseKeys
    cases Key.ofSegment? segment with
    | none => rfl
    | some key =>
      cases hkeys : parseKeys path rest with
      | error e => exact unraised_of_eq_error ih hkeys
      | ok keys => rfl

/-- Reading a path raises nothing. -/
theorem Path.raisedIn?_parse (path : String) : raisedIn? (parse path) = none := by
  unfold parse
  cases hkeys : parseKeys path (segments path).tail with
  | error e => exact unraised_of_eq_error (raisedIn?_parseKeys path _) hkeys
  | ok keys => rfl

namespace Store

/-- Reading a variable raises nothing. -/
theorem raisedIn?_get (st : Store) (path : String) : raisedIn? (st.get path) = none := by
  unfold get
  cases hpath : Path.parse path with
  | error e => exact unraised_of_eq_error (Path.raisedIn?_parse path) hpath
  | ok p =>
    dsimp only
    repeat' split
    all_goals rfl

/-- Setting a variable raises nothing. -/
theorem raisedIn?_set (st : Store) (path : String) (v : Value) :
    raisedIn? (st.set path v) = none := by
  unfold set
  cases hpath : Path.parse path with
  | error e => exact unraised_of_eq_error (Path.raisedIn?_parse path) hpath
  | ok p =>
    dsimp only
    repeat' split
    all_goals rfl

/-- Declaring a variable raises nothing. -/
theorem raisedIn?_declare (st : Store) (name : String) (v : Value) (lifetime : Lifetime) :
    raisedIn? (st.declare name v lifetime) = none := by
  unfold declare
  repeat' split
  all_goals rfl

/-- A loop variable or parameter that cannot be bound is only warned of. -/
theorem recoverable_of_bind {st : Store} {name : String} {v : Value} {lifetime : Lifetime}
    {e : ScriptError} (h : st.bind name v lifetime = .error e) : e.recoverable = true := by
  unfold bind at h
  split at h
  · cases h
    rfl
  · split at h
    · cases h
      rfl
    · cases h
    · cases h

/-- Binding a name for a call or a loop raises nothing. -/
theorem raisedIn?_bind (st : Store) (name : String) (v : Value) (lifetime : Lifetime) :
    raisedIn? (st.bind name v lifetime) = none := by
  cases h : st.bind name v lifetime with
  | ok st' => rfl
  | error e => exact ScriptError.raised?_of_recoverable (recoverable_of_bind h)

end Store

namespace BlockStack

/-- That a branch does not stand in a branching block was not raised. -/
theorem raisedIn?_branchFrame (b : BlockStack) (word : BranchWord) :
    raisedIn? (b.branchFrame word) = none := by
  unfold branchFrame
  repeat' split
  all_goals rfl

/-- That an end has no block was not raised. -/
theorem raisedIn?_close (b : BlockStack) : raisedIn? b.close = none := by
  unfold close
  repeat' split
  all_goals rfl

end BlockStack

/-! ### Functions -/

/-- What can be wrong with the arguments of a call is only warned of, parameter by parameter. -/
theorem Function.recoverable_of_mem_bindParams {f : Function} {params : List String}
    {args : List Value} {e : ScriptError} (h : e ∈ (f.bindParams params args).2) :
    e.recoverable = true := by
  fun_induction f.bindParams params args with
  | case1 args => cases h
  | case2 param params v args bound missing hrest ih => exact ih (hrest ▸ h)
  | case3 param params bound missing hrest v hv ih => exact ih (hrest ▸ h)
  | case4 param params bound missing hrest hv ih =>
    rcases List.mem_cons.1 h with rfl | h
    · rfl
    · exact ih (hrest ▸ h)

/-- A parameter without a value is only warned of. -/
theorem Function.recoverable_of_mem_bind {f : Function} {args : List Value} {e : ScriptError}
    (h : e ∈ (f.bind args).2) : e.recoverable = true :=
  recoverable_of_mem_bindParams h

/-- A body that fails, if the host computes it, for causes of its own. -/
def FunctionBody.Plain : FunctionBody → Prop
  | .native run => ∀ args, raisedIn? (run args) = none
  | .source _ => True

namespace FunctionTable

/-- No function of the host passes on an error that was raised. -/
def Plain (t : FunctionTable) : Prop :=
  ∀ name f, t.get? name = some f → f.body.Plain

/-- A table without functions has none that passes on a raised error. -/
theorem plain_empty : empty.Plain := by
  intro name f h
  cases h

/-- That a function cannot be defined was not raised. -/
theorem raisedIn?_define (t : FunctionTable) (scope : Option String) (f : Function) :
    raisedIn? (t.define scope f) = none := by
  unfold define
  dsimp only
  split
  · rfl
  · rfl

/-- A further function does not change the others. -/
theorem Plain.define {t t' : FunctionTable} (h : t.Plain) {scope : Option String} {f : Function}
    (hf : f.body.Plain) (hdefine : t.define scope f = .ok t') : t'.Plain := by
  intro name g hg
  unfold FunctionTable.define at hdefine
  dsimp only at hdefine
  split at hdefine
  · cases hdefine
  · cases hdefine
    unfold get? at hg
    rw [Assoc.get?_append] at hg
    rcases Option.or_eq_some_iff.1 hg with hold | ⟨-, hnew⟩
    · exact h name g hold
    · unfold Assoc.get? at hnew
      split at hnew
      · cases hnew
        exact hf
      · cases hnew

/-- A library of plain functions keeps a table plain, by induction on its entries. -/
theorem Plain.addLibrary {t : FunctionTable} (h : t.Plain) (scope : String)
    {entries : List LibraryEntry} (hentries : ∀ entry ∈ entries, entry.toFunction.body.Plain) :
    (addLibrary scope entries t).2.Plain := by
  induction entries generalizing t with
  | nil => exact h
  | cons entry rest ih =>
    unfold FunctionTable.addLibrary
    cases hdefine : t.define (some scope) entry.toFunction with
    | error e => exact h
    | ok t' =>
      have hentry : entry.toFunction.body.Plain := hentries entry List.mem_cons_self
      exact ih (h.define hentry hdefine) fun e he => hentries e (List.mem_cons_of_mem _ he)

end FunctionTable

/-! ### Libraries -/

/-- That an argument is no collection was not raised. -/
theorem Arguments.raisedIn?_collection (function : String) (args : List Value) (i : Nat) :
    raisedIn? (collection function args i) = none := by
  unfold collection
  split
  · rfl
  · rfl

namespace Library

/-- The functions on numbers pass on nothing raised. -/
theorem plain_math : ∀ entry ∈ math, entry.toFunction.body.Plain := by
  simp only [math, List.forall_mem_cons, List.not_mem_nil, false_imp_iff, implies_true, and_true]
  repeat' apply And.intro
  all_goals exact fun _ => rfl

/-- The functions on strings pass on nothing raised. -/
theorem plain_strings : ∀ entry ∈ strings, entry.toFunction.body.Plain := by
  have hsplit (delimiter subject : String) (limit : Int) :
      raisedIn? (splitText delimiter subject limit) = none := by
    unfold splitText
    split
    · rfl
    · rfl
  simp only [strings, List.forall_mem_cons, List.not_mem_nil, false_imp_iff, implies_true, and_true]
  exact ⟨fun _ => rfl, fun _ => rfl, fun _ => rfl, fun _ => rfl, fun _ => hsplit _ _ _⟩

/-- The functions on collections pass on nothing raised. -/
theorem plain_arrays : ∀ entry ∈ arrays, entry.toFunction.body.Plain := by
  simp only [arrays, List.forall_mem_cons, List.not_mem_nil, false_imp_iff, implies_true, and_true]
  refine ⟨?_, ?_, ?_, ?_, ?_⟩
  all_goals
    intro args
    exact raisedIn?_bind (Arguments.raisedIn?_collection _ args _) fun c => rfl

/-- The functions of the libraries fail for causes of their own. -/
theorem plain_of_find? {name : String} {entries : List LibraryEntry}
    (h : find? name = some entries) : ∀ entry ∈ entries, entry.toFunction.body.Plain := by
  unfold find? at h
  split at h
  · cases h
    exact plain_math
  · cases h
    exact plain_strings
  · cases h
    exact plain_arrays
  · cases h

end Library

namespace Session

/-- The libraries named in the settings keep a table plain. -/
theorem plain_addLibraries {t : FunctionTable} (h : t.Plain) (names : List String) :
    (addLibraries t names).Plain := by
  unfold addLibraries
  induction names generalizing t with
  | nil => exact h
  | cons name names ih =>
    rw [List.foldl_cons]
    cases hfind : Library.find? name with
    | some entries => exact ih (h.addLibrary name (Library.plain_of_find? hfind))
    | none => exact ih h

/-- **In a new session** no function of the host passes on an error that was raised. -/
theorem plain_ofSettings (settings : Settings) (loader : Option Loader) :
    (ofSettings settings loader).functions.Plain :=
  plain_addLibraries FunctionTable.plain_empty settings.libs

end Session

end LineScript
