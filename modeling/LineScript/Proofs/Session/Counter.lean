import LineScript.Proofs.Path
import LineScript.Proofs.Session.Basic
import LineScript.Proofs.Statement.Decimals
import LineScript.Proofs.Statement.Names

set_option relaxedAutoImplicit false
set_option autoImplicit false

/-!
# Counters

The variable of a counting loop starts at the first bound. Each time the loop comes round, it moves
by one step towards the second bound, unless that would pass it. With integers below `2 ^ 53` all
this is exact, so the values are those of an arithmetic progression, whose length is known in
advance.

## Main definitions

* `LineScript.Counter.pace` — the step in the direction of the second bound.
* `LineScript.Counter.turns` — how often a loop comes round.
* `LineScript.Counter.IsAt` — the variable has an integer as its value, and can be written.

## Main results

* `LineScript.Counter.between`, `LineScript.Counter.more`, `LineScript.Counter.done` — the
  progression lies between the bounds, goes on while there are turns left, and would then pass the
  second bound.
* `LineScript.Session.openCount_integers`, `LineScript.Session.advanceCount_true`,
  `LineScript.Session.advanceCount_false` — the counter at its start, moving on and at its end.
-/

namespace LineScript

namespace Counter

/-! ## Progressions -/

/-- The step from `a` towards `b`, of the same size as `s`. -/
def pace (a b s : Int) : Int :=
  (b - a).sign * s.natAbs

/-- The number of whole steps from `a` to `b`. -/
def turns (a b s : Int) : Nat :=
  (b - a).natAbs / s.natAbs

section Progressions

variable {a b s : Int} {k : Nat}

/-- The direction of the steps. -/
theorem pace_cases (a b s : Int) :
    a < b ∧ pace a b s = s.natAbs ∨ a = b ∧ pace a b s = 0 ∨ b < a ∧ pace a b s = -s.natAbs := by
  unfold pace
  rcases Int.lt_trichotomy a b with h | rfl | h
  · exact .inl ⟨h, by rw [Int.sign_eq_one_of_pos (by omega), Int.one_mul]⟩
  · exact .inr (.inl ⟨rfl, by rw [Int.sub_self, Int.sign_zero, Int.zero_mul]⟩)
  · exact .inr (.inr ⟨h, by rw [Int.sign_eq_neg_one_of_neg (by omega), Int.neg_one_mul]⟩)

/-- Up to the last turn, the steps do not lead further than the other bound. -/
theorem steps_le (hk : k ≤ turns a b s) : (k * s.natAbs : Int) ≤ (b - a).natAbs := by
  have hle : k * s.natAbs ≤ (b - a).natAbs :=
    Nat.le_trans (Nat.mul_le_mul_right _ hk) (Nat.div_mul_le_self _ _)
  exact_mod_cast hle

/-- One step after the last turn would lead further. -/
theorem lt_steps (hs : s ≠ 0) :
    ((b - a).natAbs : Int) < turns a b s * s.natAbs + s.natAbs := by
  have hlt : (b - a).natAbs < s.natAbs * (turns a b s + 1) :=
    Nat.lt_mul_div_succ _ (Int.natAbs_pos.2 hs)
  rw [Nat.mul_comm, Nat.succ_mul] at hlt
  exact_mod_cast hlt

/-- The progression lies between its bounds. -/
theorem between (hk : k ≤ turns a b s) :
    min a b ≤ a + k * pace a b s ∧ a + k * pace a b s ≤ max a b := by
  have hsteps := steps_le hk
  have hnonneg : (0 : Int) ≤ k * s.natAbs :=
    Int.mul_nonneg (Int.natCast_nonneg _) (Int.natCast_nonneg _)
  rcases pace_cases a b s with ⟨h, hpace⟩ | ⟨rfl, hpace⟩ | ⟨h, hpace⟩
  · rw [hpace]
    omega
  · rw [hpace, Int.mul_zero]
    omega
  · rw [hpace, Int.mul_neg]
    omega

/-- While there are turns left, the next value does not pass the second bound. -/
theorem more (hs : s ≠ 0) (hk : k < turns a b s) :
    0 < pace a b s ∧ a + k * pace a b s + pace a b s ≤ b ∨
      pace a b s < 0 ∧ b ≤ a + k * pace a b s + pace a b s := by
  have hpos : 0 < s.natAbs := Int.natAbs_pos.2 hs
  have hsteps := steps_le (Nat.succ_le_of_lt hk)
  rw [Nat.cast_succ, Int.add_mul, Int.one_mul] at hsteps
  rcases pace_cases a b s with ⟨h, hpace⟩ | ⟨rfl, -⟩ | ⟨h, hpace⟩
  · rw [hpace]
    omega
  · rw [turns, Int.sub_self, Int.natAbs_zero, Nat.zero_div] at hk
    omega
  · rw [hpace, Int.mul_neg]
    omega

/-- After the last turn, the next value would pass the second bound, or there is no way to go. -/
theorem done (hs : s ≠ 0) :
    pace a b s = 0 ∨ 0 < pace a b s ∧ b < a + turns a b s * pace a b s + pace a b s ∨
      pace a b s < 0 ∧ a + turns a b s * pace a b s + pace a b s < b := by
  have hpos : 0 < s.natAbs := Int.natAbs_pos.2 hs
  have hsteps := lt_steps (a := a) (b := b) hs
  rcases pace_cases a b s with ⟨h, hpace⟩ | ⟨-, hpace⟩ | ⟨h, hpace⟩
  · rw [hpace]
    omega
  · exact .inl hpace
  · rw [hpace, Int.mul_neg]
    omega

/-- The bounds and the step are below the limit. -/
theorem isExact_bounds (h : a.natAbs + b.natAbs + s.natAbs < 2 ^ 53) :
    Number.IsExact a ∧ Number.IsExact b ∧ Number.IsExact s ∧ Number.IsExact s.natAbs := by
  unfold Number.IsExact
  omega

/-- So is everything that is computed from values between the bounds. -/
theorem isExact_of_between (h : a.natAbs + b.natAbs + s.natAbs < 2 ^ 53) {x : Int}
    (hx : min a b ≤ x ∧ x ≤ max a b) :
    Number.IsExact x ∧ Number.IsExact (pace a b s) ∧ Number.IsExact (x + pace a b s) := by
  unfold Number.IsExact
  rcases pace_cases a b s with ⟨-, hpace⟩ | ⟨-, hpace⟩ | ⟨-, hpace⟩ <;> omega

end Progressions

/-! ## The variable -/

/-- The variable `name` has the integer `x` as its value, and can be written. -/
def IsAt (name : String) (x : Int) (s : Session) : Prop :=
  ∃ lifetime, s.store.find? name = some ⟨.number (Number.ofInt x), lifetime⟩ ∧ lifetime ≠ .constant

end Counter

namespace Session

open Counter (pace turns IsAt)

section Counting

variable {name : String} (hname : '.' ∉ name.toList)

include hname

/-- Reading a counter gives its number. -/
theorem isAt_get {x : Int} {s : Session} (h : IsAt name x s) :
    s.store.get name = .ok (.number (Number.ofInt x)) := by
  obtain ⟨lifetime, hfind, -⟩ := h
  rw [Store.get_of_not_dotted _ hname, hfind]
  rfl

/-- The counter is written, and stays writable. -/
theorem exists_set_isAt {x y : Int} {s : Session} (h : IsAt name x s) :
    ∃ store, s.store.set name (.number (Number.ofInt y)) = .ok store ∧
      IsAt name y { s with store := store } := by
  obtain ⟨lifetime, hfind, hlifetime⟩ := h
  refine ⟨s.store.write name ⟨.number (Number.ofInt y), lifetime⟩, ?_, lifetime, ?_, hlifetime⟩
  · simp only [Store.set, Path.parse_of_not_dotted hname, hfind, Option.getD_some,
      hlifetime, if_false, Value.assign]
  · exact Store.find?_write_self _ _ _

/-- A counter is made, or takes the place of a variable, unless that is a constant. -/
theorem exists_bind_isAt (x : Int) {s : Session} (h : s.store.lifetime? name ≠ some .constant) :
    ∃ store, s.store.bind name (.number (Number.ofInt x)) .localScope = .ok store ∧
      IsAt name x { s with store := store } := by
  have hdotted : Store.isDotted name = false := by
    simpa [Store.isDotted] using hname
  unfold Store.bind
  rw [hdotted]
  rcases hlifetime : s.store.lifetime? name with _ | (_ | _ | _)
  · exact ⟨_, rfl, .localScope, Store.find?_write_self _ _ _, by simp⟩
  · exact ⟨_, rfl, .localScope, Store.find?_write_self _ _ _, by simp⟩
  · exact ⟨_, rfl, .globalScope, Store.find?_write_self _ _ _, by simp⟩
  · exact absurd hlifetime h

/-- Where the steps lead somewhere, the next value decides whether the counter moves. -/
theorem runFrom_advanceCount {b x d : Int} {u : Session} (h : IsAt name x u) (hd : d ≠ 0)
    (hb : Number.IsExact b)
    (hexact : Number.IsExact x ∧ Number.IsExact d ∧ Number.IsExact (x + d)) :
    (advanceCount ⟨name, Number.ofInt b, Number.ofInt d⟩).runFrom u =
      (if (if 0 < d then x + d ≤ b else b ≤ x + d) then do
          updateStore fun st => st.set name (.number (Number.ofInt (x + d)))
          pure true
        else pure false : Action Session Bool).runFrom u := by
  obtain ⟨hx, hd', hnext⟩ := hexact
  have hzero : (Number.ofInt d == 0.0) = false := by
    rw [Number.ofInt_zero, Bool.eq_false_iff, Ne, Number.ofInt_beq hd' (by decide)]
    exact hd
  have hread : (Action.ofExcept (u.store.get name) : Action Session Value) =
      pure (.number (Number.ofInt x)) := by
    rw [isAt_get hname h]
    rfl
  have hpos := Number.ofInt_lt (a := 0) (by decide) hd'
  simp only [advanceCount, hzero, Bool.false_eq_true, if_false, Action.runFrom_get_bind, hread,
    pure_bind, Value.toNumber, Number.ofInt_add hx hd' hnext]
  simp only [Number.ofInt_zero, hpos, Number.ofInt_le hnext hb, Number.ofInt_le hb hnext]
  split <;> simp

variable {a b s : Int} (hsize : a.natAbs + b.natAbs + s.natAbs < 2 ^ 53) (hs : s ≠ 0)

include hsize hs

omit hname in
/-- The step has the sign of the direction. -/
theorem signed_eq_pace :
    (if Number.ofInt a < Number.ofInt b then Number.ofInt s.natAbs
      else if Number.ofInt b < Number.ofInt a then -Number.ofInt s.natAbs else 0.0) =
      Number.ofInt (pace a b s) := by
  obtain ⟨ha, hb, -, hwidth⟩ := Counter.isExact_bounds hsize
  have hpos : (s.natAbs : Int) ≠ 0 := by omega
  rw [Number.ofInt_zero]
  simp only [Number.ofInt_lt ha hb, Number.ofInt_lt hb ha, Number.neg_ofInt hwidth hpos]
  rcases Counter.pace_cases a b s with ⟨h, hpace⟩ | ⟨rfl, hpace⟩ | ⟨h, hpace⟩
  · rw [if_pos h, hpace]
  · rw [if_neg (Int.lt_irrefl a), if_neg (Int.lt_irrefl a), hpace]
  · rw [if_neg (by omega), if_pos h, hpace]

/-- **A counter at its start** stands at the first bound. -/
theorem openCount_integers {u : Session} (hconstant : u.store.lifetime? name ≠ some .constant) :
    ∃ t, IsAt name a t ∧ ∀ run,
      (openCount run name (toString a) (toString b) (some (toString s))).runFrom u =
        .ok (.ok ⟨name, Number.ofInt b, Number.ofInt (pace a b s)⟩, t) := by
  obtain ⟨ha, hb, hstep, hwidth⟩ := Counter.isExact_bounds hsize
  obtain ⟨store, hbind, hat⟩ := exists_bind_isAt hname a hconstant
  refine ⟨_, hat, fun run => ?_⟩
  have hzero : (Number.ofInt s.natAbs == 0.0 || (Number.ofInt s.natAbs).isNaN) = false := by
    rw [Number.ofInt_zero, Number.isNaN_ofInt hwidth, Bool.or_false, Bool.eq_false_iff, Ne,
      Number.ofInt_beq hwidth (by decide)]
    omega
  simp only [openCount, evaluateWith, Formula.evaluate_toString _ ha,
    Formula.evaluate_toString _ hb, Formula.evaluate_toString _ hstep, pure_bind, Value.toNumber,
    Number.abs_ofInt hstep, hzero, Bool.false_eq_true, if_false, signed_eq_pace hsize hs,
    Action.runFrom_bind, runFrom_updateStore, hbind, Action.runFrom_pure]

/-- **A counter that moves on**, while the second bound is not passed. -/
theorem advanceCount_true {k : Nat} {u : Session} (hk : k < turns a b s)
    (h : IsAt name (a + k * pace a b s) u) :
    ∃ t, IsAt name (a + (k + 1 : Nat) * pace a b s) t ∧
      (advanceCount ⟨name, Number.ofInt b, Number.ofInt (pace a b s)⟩).runFrom u =
        .ok (.ok true, t) := by
  have hexact := Counter.isExact_of_between hsize (Counter.between (Nat.le_of_lt hk))
  obtain ⟨-, hb, -⟩ := Counter.isExact_bounds hsize
  obtain ⟨store, hset, hat⟩ := exists_set_isAt hname h (y := a + k * pace a b s + pace a b s)
  refine ⟨{ u with store := store }, ?_, ?_⟩
  · rwa [Nat.cast_succ, Int.add_mul, Int.one_mul, ← Int.add_assoc]
  · have hmore := Counter.more hs hk
    rw [runFrom_advanceCount hname h (by omega) hb hexact, if_pos (by split <;> omega),
      Action.runFrom_bind, runFrom_updateStore, hset]
    rfl

/-- **A counter at its end** stays where it is. -/
theorem advanceCount_false {u : Session} (h : IsAt name (a + turns a b s * pace a b s) u) :
    (advanceCount ⟨name, Number.ofInt b, Number.ofInt (pace a b s)⟩).runFrom u =
      .ok (.ok false, u) := by
  have hexact := Counter.isExact_of_between hsize (Counter.between (Nat.le_refl (turns a b s)))
  obtain ⟨-, hb, -⟩ := Counter.isExact_bounds hsize
  rcases Counter.done (a := a) (b := b) hs with hzero | hdone
  · -- the bounds are equal, and no step is added at all
    have hstep : (Number.ofInt (pace a b s) == 0.0) = true := by
      rw [Number.ofInt_zero, hzero]
      exact (Number.ofInt_beq (by decide) (by decide)).2 rfl
    simp only [advanceCount, hstep, if_true, Action.runFrom_pure]
  · rw [runFrom_advanceCount hname h (by omega) hb hexact, if_neg (by split <;> omega)]
    rfl

end Counting

end Session

end LineScript
