import Mathlib
import Nodeflow.Data.Json
import Nodeflow.Proofs.Json.RoundTrip
import Nodeflow.Proofs.Number.Reading

/-!
# Values through their documents

A value is written so that no other variant is read from it: only unit is null, an
integer is a whole numeral, and a float never is, since its layout keeps the point.
What a float comes back as is left to the reader of numerals; everything else is exact.
-/

namespace Nodeflow

/-! ## Numbers -/

theorem word?_toInt (i : Int64) : word? i.toInt = some i := by
  rw [word?, if_pos ⟨i.minValue_le_toInt, i.toInt_le⟩, Int64.ofInt_toInt]

theorem toData_ofInt (i : Int64) : (Numeral.ofInt i.toInt).toData = .int i.toInt := by
  have hlow := i.le_toInt
  have hhigh := i.toInt_lt
  have hinteger : (Numeral.ofInt i.toInt).integer? = some i.toInt := by
    simp only [Numeral.integer?, Numeral.ofInt, Numeral.isWhole, List.isEmpty_nil, Bool.and_self,
      if_true, digitsValue_toDigits, decide_eq_true_eq]
    split
    · rename_i hneg
      rw [if_neg (by omega), show -(i.toInt.natAbs : Int) = i.toInt by omega, word?_toInt]
      rfl
    · rw [if_pos (by rw [UInt64.size]; omega)]
      congr 1
      omega
  rw [Numeral.toData, hinteger]

theorem toData_ofNat {n : Nat} (h : n < UInt64.size) : (Numeral.ofNat n).toData = .int n := by
  have hinteger : (Numeral.ofNat n).integer? = some (n : Int) := by
    simp [Numeral.integer?, Numeral.ofNat, Numeral.isWhole, h]
  rw [Numeral.toData, hinteger]

theorem toData_of_not_isWhole {n : Numeral} (hwhole : n.isWhole = false) {x : Float}
    (hx : n.toDouble? = some x) : n.toData = .float x := by
  have hinteger : n.integer? = none := by simp [Numeral.integer?, hwhole]
  rw [Numeral.toData, hinteger, hx]

@[simp] theorem depth_toData_numeral (n : Numeral) : n.toData.depth = 0 := by
  simp only [Numeral.toData]
  split
  · rfl
  · split <;> rfl

/-- The printed text of a double is read as that double. -/
def ReadsBack (x : Float) : Prop :=
  ∃ n, savedDoubleLayout.double? x = some n ∧ n.toDouble? = some x

instance : DecidablePred ReadsBack := fun x =>
  decidable_of_iff ((savedDoubleLayout.double? x).bind Numeral.toDouble? = some x)
    Option.bind_eq_some_iff

theorem double?_eq_some {layout : DecimalLayout} {x : Float} {n : Numeral}
    (h : layout.double? x = some n) :
    n = layout.finite binary64 (doubleParts x).1 (doubleParts x).2 := by
  simp only [DecimalLayout.double?] at h
  split at h
  · exact (Option.some.inj h).symm
  · contradiction

theorem toData_of_readsBack {x : Float} (h : ReadsBack x) :
    (Json.ofNumeral? (savedDoubleLayout.double? x)).toData = .float x := by
  obtain ⟨n, hn, hx⟩ := h
  have hwhole : n.isWhole = false := by
    rw [double?_eq_some hn]
    exact DecimalLayout.isWhole_finite rfl _ _ _
  rw [hn, Json.ofNumeral?, Json.toData, toData_of_not_isWhole hwhole hx]

theorem grammatical_ofNumeral? {n : Option Numeral} (h : ∀ m ∈ n, m.Grammatical) :
    (Json.ofNumeral? n).Grammatical := by
  cases n with
  | none => trivial
  | some m => exact h m rfl

theorem grammatical_double? (layout : DecimalLayout) (x : Float) :
    (Json.ofNumeral? (layout.double? x)).Grammatical :=
  grammatical_ofNumeral? fun _ hn => double?_eq_some hn ▸ layout.finite_grammatical _ _ _

theorem grammatical_single? (layout : DecimalLayout) (x : Float32) :
    (Json.ofNumeral? (layout.single? x)).Grammatical := by
  refine grammatical_ofNumeral? fun n hn => ?_
  simp only [DecimalLayout.single?, Option.mem_def] at hn
  split at hn
  · exact Option.some.inj hn ▸ layout.finite_grammatical _ _ _
  · contradiction

theorem single?_toData {x : Float32} (h : x.isFinite = true) :
    (Json.ofNumeral? (savedSingleLayout.single? x)).toData.single?.isSome = true := by
  obtain ⟨n, hn, hdouble⟩ := single?_of_isFinite savedSingleLayout h
  obtain ⟨y, hy⟩ := Option.isSome_iff_exists.1 hdouble
  rw [hn, Json.ofNumeral?, Json.toData, Numeral.toData, hy]
  cases n.integer? <;> rfl

theorem isFinite_of_single? {x y : Float32}
    (h : (Json.ofNumeral? (savedSingleLayout.single? x)).toData.single? = some y) :
    x.isFinite = true := by
  by_contra hx
  rw [single?_of_not_isFinite _ (Bool.eq_false_iff.2 hx)] at h
  contradiction

/-! ## Lists -/

namespace Json

theorem toDataList_eq_map (items : List Json) : toDataList items = items.map toData := by
  induction items with
  | nil => rfl
  | cons item rest ih => rw [toDataList, ih, List.map_cons]

theorem toDataMembers_eq_map (members : List (String × Json)) :
    toDataMembers members = members.map fun m => (m.1, m.2.toData) := by
  induction members with
  | nil => rfl
  | cons m rest ih => rw [toDataMembers, ih, List.map_cons]

@[simp] theorem toData_array (items : List Json) :
    (array items).toData = .list (items.map toData) := by
  rw [toData, toDataList_eq_map]

@[simp] theorem toData_object (members : List (String × Json)) :
    (object members).toData = .table (members.map fun m => (m.1, m.2.toData)) := by
  rw [toData, toDataMembers_eq_map]

end Json

/-! ## Values -/

namespace Value

mutual

def floats : Value → List Float
  | .float x => [x]
  | .list items => floatsList items
  | _ => []

def floatsList : List Value → List Float
  | [] => []
  | v :: rest => v.floats ++ floatsList rest

end

mutual

def depth : Value → Nat
  | .list items => depthList items + 1
  | _ => 0

def depthList : List Value → Nat
  | [] => 0
  | v :: rest => max v.depth (depthList rest)

end

mutual

theorem grammatical_toJson : ∀ v : Value, v.toJson.Grammatical
  | .unit | .bool _ | .text _ => trivial
  | .int i => Numeral.ofInt_grammatical i.toInt
  | .float x => grammatical_double? savedDoubleLayout x
  | .list items => grammatical_toJsonList items

theorem grammatical_toJsonList : ∀ items : List Value, Json.GrammaticalItems (toJsonList items)
  | [] => trivial
  | v :: rest => ⟨grammatical_toJson v, grammatical_toJsonList rest⟩

end

mutual

theorem depth_toData : ∀ v : Value, v.toJson.toData.depth = v.depth
  | .unit | .bool _ | .text _ => rfl
  | .int i => depth_toData_numeral _
  | .float x => by
      rw [toJson]
      cases savedDoubleLayout.double? x with
      | none => rfl
      | some n => exact depth_toData_numeral n
  | .list items => by rw [toJson, Json.toData, Data.depth, depth_toDataList items, depth]

theorem depth_toDataList : ∀ items : List Value,
    Data.depthList (Json.toDataList (toJsonList items)) = depthList items
  | [] => rfl
  | v :: rest => by
      rw [toJsonList, Json.toDataList, Data.depthList, depth_toData v, depth_toDataList rest,
        depthList]

end

mutual

theorem ofData?_toData : ∀ v : Value, (∀ x ∈ v.floats, ReadsBack x) →
    ofData? v.toJson.toData = some v
  | .unit, _ | .bool _, _ | .text _, _ => rfl
  | .int i, _ => by
      rw [toJson, Json.ofInt, Json.toData, toData_ofInt, ofData?, word?_toInt]
  | .float x, h => by
      rw [toJson, toData_of_readsBack (h x (List.mem_singleton_self x)), ofData?]
  | .list items, h => by
      rw [toJson, Json.toData, ofData?, ofDataList?_toDataList items h, Option.map_some]

theorem ofDataList?_toDataList : ∀ items : List Value, (∀ x ∈ floatsList items, ReadsBack x) →
    ofDataList? (Json.toDataList (toJsonList items)) = some items
  | [], _ => rfl
  | v :: rest, h => by
      have hv := ofData?_toData v fun x hx => h x (List.mem_append_left _ hx)
      have hrest := ofDataList?_toDataList rest fun x hx => h x (List.mem_append_right _ hx)
      rw [toJsonList, Json.toDataList, ofDataList?, hv, hrest]
      rfl

end

end Value

mutual

theorem isReadable_of_ofData? : ∀ (d : Data) (v : Value), Value.ofData? d = some v →
    d.isReadable = true
  | .null, _, _ | .bool _, _, _ | .int _, _, _ | .float _, _, _ | .text _, _, _ => rfl
  | .list items, v, h => by
      rw [Value.ofData?, Option.map_eq_some_iff] at h
      obtain ⟨vs, hvs, -⟩ := h
      exact isReadableList_of_ofDataList? items vs hvs

theorem isReadableList_of_ofDataList? : ∀ (items : List Data) (vs : List Value),
    Value.ofDataList? items = some vs → Data.isReadableList items = true
  | [], _, _ => rfl
  | d :: rest, vs, h => by
      simp only [Value.ofDataList?, Option.bind_eq_bind, Option.bind_eq_some_iff] at h
      obtain ⟨v, hv, vs', hvs, -⟩ := h
      rw [Data.isReadableList, isReadable_of_ofData? d v hv,
        isReadableList_of_ofDataList? rest vs' hvs, Bool.and_self]

end

end Nodeflow
