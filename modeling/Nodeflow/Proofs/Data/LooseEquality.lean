import Mathlib
import Nodeflow.Capability.Descriptor
import Nodeflow.Proofs.Number.Widening

/-!
# Loose equality and the numbers behind it

Values that hold the same numbers are loosely equal, over all integers and doubles.
The converse holds while the integers have no more than 53 bits, since an integer is
compared with a float only after it has been widened.  There loose equality is an
equivalence of the values without NaN, and such values select the same slot.
-/

namespace Nodeflow

inductive ExactValue where
  | unit
  | bool (b : Bool)
  | number (q : ExactNumber)
  | text (s : String)
  | list (items : List ExactValue)

namespace Value

mutual

def exactValue? : Value → Option ExactValue
  | .unit => some .unit
  | .bool b => some (.bool b)
  | .int i => some (.number (.finite i.toInt))
  | .float x => (exactDouble? x).map .number
  | .text s => some (.text s)
  | .list items => (exactValues? items).map .list

def exactValues? : List Value → Option (List ExactValue)
  | [] => some []
  | v :: rest => do
    let e ← exactValue? v
    let es ← exactValues? rest
    some (e :: es)

end

mutual

def ints : Value → List Int64
  | .int i => [i]
  | .list items => intsList items
  | _ => []

def intsList : List Value → List Int64
  | [] => []
  | v :: rest => v.ints ++ intsList rest

end

def Widens (v : Value) : Prop :=
  ∀ i ∈ v.ints, i.toInt.natAbs ≤ 2 ^ 53

def SameNumbers (v w : Value) : Prop :=
  ∃ e, v.exactValue? = some e ∧ w.exactValue? = some e

theorem exactValues?_cons {v : Value} {vs : List Value} {es : List ExactValue}
    (h : exactValues? (v :: vs) = some es) :
    ∃ e, v.exactValue? = some e ∧ ∃ es', exactValues? vs = some es' ∧ es = e :: es' := by
  rw [exactValues?] at h
  cases he : v.exactValue? with
  | none => simp [he] at h
  | some e =>
      cases hes : exactValues? vs with
      | none => simp [he, hes] at h
      | some es' => exact ⟨e, rfl, es', rfl, by simpa [he, hes] using h.symm⟩

/-! ## Integers beside doubles -/

theorem int_eq_of_exact {a b : Int64}
    (h : ExactNumber.finite a.toInt = .finite b.toInt) : a = b := by
  have hcast : (a.toInt : ℚ) = b.toInt := ExactNumber.finite.inj h
  exact Int64.toInt_inj.1 (by exact_mod_cast hcast)

theorem widen_beq_of_exact {a : Int64} {y : Float}
    (h : exactDouble? y = some (.finite a.toInt)) : (widen a == y) = true := by
  have hy : y.isNaN = false := by
    cases hnan : y.isNaN with
    | false => rfl
    | true => rw [exactDouble?_of_isNaN hnan] at h; cases h
  rw [beq_iff_place (isNaN_widen a) hy]
  exact place_widen_of_exact h

theorem exact_of_widen_beq {a : Int64} {y : Float} (ha : a.toInt.natAbs ≤ 2 ^ 53)
    (h : (widen a == y) = true) : exactDouble? y = some (.finite a.toInt) := by
  obtain ⟨q, hq, hy⟩ := beq_iff_exact.1 h
  rw [exactDouble?_widen ha] at hq
  rw [hy, hq]

/-! ## Loose equality -/

mutual

theorem looselyEquals_of_exact (v w : Value) {e : ExactValue} (hv : v.exactValue? = some e)
    (hw : w.exactValue? = some e) : v.looselyEquals w = true := by
  cases v with
  | unit =>
      cases hv
      cases w with
      | unit => rfl
      | _ => simp [exactValue?] at hw
  | bool a =>
      cases hv
      cases w with
      | bool b =>
          obtain rfl : b = a := by simpa [exactValue?] using hw
          exact beq_self_eq_true b
      | _ => simp [exactValue?] at hw
  | int a =>
      cases hv
      cases w with
      | int b =>
          have hnumber : ExactNumber.finite b.toInt = .finite a.toInt := by
            simpa [exactValue?] using hw
          rw [looselyEquals, int_eq_of_exact hnumber, beq_self_eq_true]
      | float y => exact widen_beq_of_exact (by simpa [exactValue?] using hw)
      | _ => simp [exactValue?] at hw
  | float x =>
      obtain ⟨q, hx, rfl⟩ := Option.map_eq_some_iff.1 hv
      cases w with
      | int b =>
          obtain rfl : ExactNumber.finite b.toInt = q := by simpa [exactValue?] using hw
          exact widen_beq_of_exact hx
      | float y => exact beq_iff_exact.2 ⟨q, hx, by simpa [exactValue?] using hw⟩
      | _ => simp [exactValue?] at hw
  | text s =>
      cases hv
      cases w with
      | text t =>
          obtain rfl : t = s := by simpa [exactValue?] using hw
          exact beq_self_eq_true t
      | _ => simp [exactValue?] at hw
  | list xs =>
      obtain ⟨es, hxs, rfl⟩ := Option.map_eq_some_iff.1 hv
      cases w with
      | list ys => exact looselyEqualsList_of_exact xs ys hxs (by simpa [exactValue?] using hw)
      | _ => simp [exactValue?] at hw

theorem looselyEqualsList_of_exact (vs ws : List Value) {es : List ExactValue}
    (hvs : exactValues? vs = some es) (hws : exactValues? ws = some es) :
    looselyEqualsList vs ws = true := by
  cases vs with
  | nil =>
      cases hvs
      cases ws with
      | nil => rfl
      | cons w ws =>
          obtain ⟨_, _, _, _, heq⟩ := exactValues?_cons hws
          cases heq
  | cons v vs =>
      obtain ⟨e, he, es', hes, rfl⟩ := exactValues?_cons hvs
      cases ws with
      | nil => simp [exactValues?] at hws
      | cons w ws =>
          obtain ⟨e', he', es'', hes', heq⟩ := exactValues?_cons hws
          cases heq
          rw [looselyEqualsList, looselyEquals_of_exact v w he he',
            looselyEqualsList_of_exact vs ws hes hes', Bool.and_self]

end

mutual

/-- Values whose integers widen without loss are loosely equal only where they hold the
same numbers. -/
theorem exact_of_looselyEquals (v w : Value) (hv : v.Widens) (hw : w.Widens)
    (h : v.looselyEquals w = true) : v.SameNumbers w := by
  cases v with
  | unit =>
      cases w with
      | unit => exact ⟨.unit, rfl, rfl⟩
      | _ => cases h
  | bool a =>
      cases w with
      | bool b =>
          obtain rfl : a = b := by simpa [looselyEquals] using h
          exact ⟨.bool a, rfl, rfl⟩
      | _ => cases h
  | int a =>
      cases w with
      | int b =>
          obtain rfl : a = b := by simpa [looselyEquals] using h
          exact ⟨.number (.finite a.toInt), rfl, rfl⟩
      | float y =>
          have hy := exact_of_widen_beq (hv a (List.mem_singleton_self a)) h
          exact ⟨.number (.finite a.toInt), rfl, by rw [exactValue?, hy]; rfl⟩
      | _ => cases h
  | float x =>
      cases w with
      | int b =>
          have hx := exact_of_widen_beq (hw b (List.mem_singleton_self b)) h
          exact ⟨.number (.finite b.toInt), by rw [exactValue?, hx]; rfl, rfl⟩
      | float y =>
          obtain ⟨q, hx, hy⟩ := beq_iff_exact.1 h
          exact ⟨.number q, by rw [exactValue?, hx]; rfl, by rw [exactValue?, hy]; rfl⟩
      | _ => cases h
  | text s =>
      cases w with
      | text t =>
          obtain rfl : s = t := by simpa [looselyEquals] using h
          exact ⟨.text s, rfl, rfl⟩
      | _ => cases h
  | list xs =>
      cases w with
      | list ys =>
          obtain ⟨es, hxs, hys⟩ := exact_of_looselyEqualsList xs ys hv hw h
          exact ⟨.list es, by rw [exactValue?, hxs]; rfl, by rw [exactValue?, hys]; rfl⟩
      | _ => cases h

theorem exact_of_looselyEqualsList (vs ws : List Value)
    (hvs : ∀ i ∈ intsList vs, i.toInt.natAbs ≤ 2 ^ 53)
    (hws : ∀ i ∈ intsList ws, i.toInt.natAbs ≤ 2 ^ 53) (h : looselyEqualsList vs ws = true) :
    ∃ es, exactValues? vs = some es ∧ exactValues? ws = some es := by
  cases vs with
  | nil =>
      cases ws with
      | nil => exact ⟨[], rfl, rfl⟩
      | cons w ws => cases h
  | cons v vs =>
      cases ws with
      | nil => cases h
      | cons w ws =>
          obtain ⟨hhead, htail⟩ := Bool.and_eq_true_iff.1 h
          obtain ⟨e, hv, hw⟩ := exact_of_looselyEquals v w
            (fun i hi => hvs i (List.mem_append_left _ hi))
            (fun i hi => hws i (List.mem_append_left _ hi)) hhead
          obtain ⟨es, hes, hes'⟩ := exact_of_looselyEqualsList vs ws
            (fun i hi => hvs i (List.mem_append_right _ hi))
            (fun i hi => hws i (List.mem_append_right _ hi)) htail
          exact ⟨e :: es, by rw [exactValues?, hv, hes]; rfl, by rw [exactValues?, hw, hes']; rfl⟩

end

theorem looselyEquals_iff_sameNumbers {v w : Value} (hv : v.Widens) (hw : w.Widens) :
    v.looselyEquals w = true ↔ v.SameNumbers w :=
  ⟨exact_of_looselyEquals v w hv hw, fun ⟨_, he, he'⟩ => looselyEquals_of_exact v w he he'⟩

/-! ## An equivalence -/

theorem SameNumbers.symm {v w : Value} (h : v.SameNumbers w) : w.SameNumbers v :=
  let ⟨e, hv, hw⟩ := h
  ⟨e, hw, hv⟩

theorem SameNumbers.trans {u v w : Value} (h : u.SameNumbers v) (h' : v.SameNumbers w) :
    u.SameNumbers w := by
  obtain ⟨e, hu, hv⟩ := h
  obtain ⟨e', hv', hw⟩ := h'
  obtain rfl : e' = e := Option.some.inj (hv'.symm.trans hv)
  exact ⟨e', hu, hw⟩

/-- Without NaN and with no integer that loses digits, loose equality is an equivalence. -/
theorem looselyEquals_equivalence :
    Equivalence fun v w : {v : Value // v.exactValue?.isSome ∧ v.Widens} =>
      v.1.looselyEquals w.1 = true where
  refl v := by
    obtain ⟨e, he⟩ := Option.isSome_iff_exists.1 v.2.1
    exact looselyEquals_of_exact v.1 v.1 he he
  symm {v w} h := by
    rw [looselyEquals_iff_sameNumbers v.2.2 w.2.2] at h
    exact (looselyEquals_iff_sameNumbers w.2.2 v.2.2).2 h.symm
  trans {u v w} h h' := by
    rw [looselyEquals_iff_sameNumbers u.2.2 v.2.2] at h
    rw [looselyEquals_iff_sameNumbers v.2.2 w.2.2] at h'
    exact (looselyEquals_iff_sameNumbers u.2.2 w.2.2).2 (h.trans h')

example :
    let odd := Value.int 9007199254740993
    let even := Value.int 9007199254740992
    let double := Value.float (widen 9007199254740992)
    odd.looselyEquals double = true ∧ double.looselyEquals even = true ∧
      odd.looselyEquals even = false := by
  decide +kernel

end Value

/-! ## Slots -/

def ExecSlot.Widens (slot : ExecSlot) : Prop :=
  ∀ values, slot.pattern = .oneOf values → ∀ a ∈ values, a.Widens

theorem ExecSlot.accepts_congr {slot : ExecSlot} {v w : Value} (hslot : slot.Widens)
    (hv : v.Widens) (hw : w.Widens) (h : v.SameNumbers w) : slot.accepts v = slot.accepts w := by
  rw [accepts, accepts]
  split
  · rename_i values hpattern
    rw [Bool.eq_iff_iff, List.any_eq_true, List.any_eq_true]
    refine exists_congr fun a => and_congr_right fun ha => ?_
    have hlisted := hslot values hpattern a ha
    rw [Value.looselyEquals_iff_sameNumbers hlisted hv,
      Value.looselyEquals_iff_sameNumbers hlisted hw]
    exact ⟨fun hsame => hsame.trans h, fun hsame => hsame.trans h.symm⟩
  · rfl

theorem Descriptor.selectSlot_congr {d : Descriptor} {v w : Value}
    (hslots : ∀ slot ∈ d.slots, slot.Widens) (hv : v.Widens) (hw : w.Widens)
    (h : v.SameNumbers w) : d.selectSlot v = d.selectSlot w := by
  have hfind : d.slots.findIdx? (·.accepts v) = d.slots.findIdx? (·.accepts w) := by
    generalize d.slots = slots at hslots ⊢
    induction slots with
    | nil => rfl
    | cons slot slots ih =>
        obtain ⟨hslot, hrest⟩ := List.forall_mem_cons.1 hslots
        rw [List.findIdx?_cons, List.findIdx?_cons, ih hrest, slot.accepts_congr hslot hv hw h]
  rw [selectSlot, selectSlot, hfind]

end Nodeflow
