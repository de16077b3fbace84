import Mathlib.Data.List.TakeDrop
import Nodeflow.Expr.Evaluation
import Nodeflow.Object

/-!
# Names in expressions

An expression that is one name, or one field of the owning object, reads back what is
bound, whatever else is in sight.
-/

namespace Nodeflow

/-! ## Identifiers -/

/-- Underscores, then a letter, then letters, digits and underscores. -/
def Spelled (cs : List Char) : Prop :=
  ∃ lead letter rest, cs = lead ++ letter :: rest ∧ (∀ c ∈ lead, c = '_') ∧
    letter.isAlpha ∧ ∀ c ∈ rest, c.isAlphanum ∨ c = '_'

def keptWords : List String :=
  ["true", "false", "in"] ++ Token.reservedWords ++ Token.functionWords

structure Identifier (name : String) : Prop where
  spelled : Spelled name.toList
  free : name ∉ keptWords

namespace Spelled

variable {cs : List Char}

theorem of_letters (hne : cs.isEmpty = false) (h : cs.all Char.isAlpha = true) : Spelled cs := by
  cases cs with
  | nil => cases hne
  | cons c rest =>
      rw [List.all_cons, Bool.and_eq_true, List.all_eq_true] at h
      refine ⟨[], c, rest, rfl, nofun, h.1, fun d hd => .inl ?_⟩
      rw [Char.isAlphanum, h.2 d hd, Bool.true_or]

theorem isNameChar (h : Spelled cs) : ∀ c ∈ cs, Token.isNameChar c = true := by
  obtain ⟨lead, letter, rest, rfl, hlead, hletter, hrest⟩ := h
  intro c hc
  rw [Token.isNameChar, Bool.or_eq_true, beq_iff_eq]
  rcases List.mem_append.1 hc with hc | hc
  · exact .inr (hlead c hc)
  · rcases List.mem_cons.1 hc with rfl | hc
    · exact .inl (by simp [Char.isAlphanum, hletter])
    · exact hrest c hc

theorem isName (h : Spelled cs) : Token.isName cs = true := by
  obtain ⟨lead, letter, rest, rfl, hlead, hletter, -⟩ := h
  have hne : letter ≠ '_' := by
    rintro rfl
    exact absurd hletter (by decide)
  have hdrop : (lead ++ letter :: rest).dropWhile (· == '_') = letter :: rest := by
    rw [List.dropWhile_append_of_pos (by simpa using hlead),
      List.dropWhile_cons_of_neg (by simpa using hne)]
  rw [Token.isName, hdrop]
  exact hletter

theorem exists_cons (h : Spelled cs) :
    ∃ c tail, cs = c :: tail ∧ Token.isNameStart c = true := by
  obtain ⟨lead, letter, rest, rfl, hlead, hletter, -⟩ := h
  cases lead with
  | nil => exact ⟨letter, rest, rfl, by simp [Token.isNameStart, hletter]⟩
  | cons c lead =>
      have hc : c = '_' := hlead c List.mem_cons_self
      exact ⟨c, lead ++ letter :: rest, rfl, by simp [Token.isNameStart, hc]⟩

end Spelled

theorem Identifier.ofWord? {name : String} (h : Identifier name) :
    Token.ofWord? name.toList = some (.name name) := by
  have hfree := h.free
  simp only [keptWords, List.mem_append, List.mem_cons, not_or] at hfree
  obtain ⟨⟨⟨htrue, hfalse, hin, -⟩, hreserved⟩, -⟩ := hfree
  simp [Token.ofWord?, htrue, hfalse, hin, h.spelled.isName, hreserved]

theorem Identifier.bareName? {name : String} (h : Identifier name) :
    Expr.bareName? name = some name := by
  have hfree : name ∉ Token.functionWords := fun hmem =>
    h.free (List.mem_append.2 (.inr hmem))
  simp [Expr.bareName?, hfree]

/-! ## Scanning them -/

namespace Token

theorem of_isNameStart {c : Char} (h : isNameStart c = true) :
    isBlank c = false ∧ c ≠ '/' ∧ c.isDigit = false ∧ c ≠ '-' := by
  have hne : ∀ d, isNameStart d = false → c ≠ d := by
    rintro d hd rfl
    exact absurd h (by simp [hd])
  have hdigit : c.isDigit = false := by
    rw [isNameStart, Bool.or_eq_true, beq_iff_eq] at h
    rcases h with h | rfl
    · have hletter : (decide (c.val ≥ 'A'.val ∧ c.val ≤ 'Z'.val) ||
          decide (c.val ≥ 'a'.val) && decide (c.val ≤ 'z'.val)) = true := h
      simp only [Char.isDigit, Bool.or_eq_true, Bool.and_eq_true, Bool.and_eq_false_iff,
        decide_eq_true_eq, decide_eq_false_iff_not, UInt32.le_iff_toNat_le, ge_iff_le]
        at hletter ⊢
      have h9 : '9'.val.toNat = 57 := rfl
      have hA : 'A'.val.toNat = 65 := rfl
      have ha : 'a'.val.toNat = 97 := rfl
      omega
    · rfl
  refine ⟨?_, hne '/' (by decide), hdigit, hne '-' (by decide)⟩
  simp [isBlank, hne ' ' (by decide), hne '\t' (by decide), hne '\r' (by decide),
    hne '\n' (by decide)]

theorem scanFrom_identifier {name : String} (h : Identifier name) {rest : List Char}
    (hrest : ∀ c ∈ rest.head?, isNameChar c = false) (fuel : Nat) (holes : List Nat)
    (afterValue : Bool) :
    scanFrom (fuel + 1) holes afterValue (name.toList ++ rest) =
      (.name name :: ·) <$> scanFrom fuel holes true rest := by
  obtain ⟨c, tail, hcs, hstart⟩ := h.spelled.exists_cons
  obtain ⟨hblank, hslash, hdigit, hminus⟩ := of_isNameStart hstart
  have hspan : (name.toList ++ rest).span isNameChar = (name.toList, rest) := by
    rw [List.span_eq_takeWhile_dropWhile, List.takeWhile_append_of_pos h.spelled.isNameChar,
      List.dropWhile_append_of_pos h.spelled.isNameChar]
    cases rest with
    | nil => simp
    | cons d rest =>
        have hd : isNameChar d = false := hrest d rfl
        simp [hd]
  have hword := h.ofWord?
  rw [hcs] at hspan hword ⊢
  rw [List.cons_append] at hspan ⊢
  simp [scanFrom, hblank, hslash, hdigit, hminus, hstart, hspan, hword, endsValue,
    -List.span_eq_takeWhile_dropWhile]

theorem scanFrom_dot {rest : List Char} (hrest : rest.head? ≠ some '.') (fuel : Nat)
    (holes : List Nat) (afterValue : Bool) :
    scanFrom (fuel + 1) holes afterValue ('.' :: rest) =
      (.symbol .dot :: ·) <$> scanFrom fuel holes false rest := by
  have hsymbol : symbol? ('.' :: rest) = some (.dot, rest) := by
    cases rest with
    | nil => rfl
    | cons c rest =>
        have hc : c ≠ '.' := by simpa using hrest
        simp [symbol?, hc]
  simp [scanFrom, isBlank, isNameStart, templateMark, hsymbol, endsValue]

theorem scan_identifier {name : String} (h : Identifier name) :
    scan name = some [.name name] := by
  have hname := @scanFrom_identifier name h [] (by simp) (2 * name.toList.length + 1) [] false
  rw [List.append_nil] at hname
  rw [scan, hname]
  simp [scanFrom]

theorem scan_member {object field : String} (hobject : Identifier object)
    (hfield : Identifier field) :
    scan (object ++ "." ++ field) = some [.name object, .symbol .dot, .name field] := by
  obtain ⟨c, tail, hcs, hstart⟩ := hfield.spelled.exists_cons
  have hends : ∀ c ∈ ('.' :: field.toList).head?, isNameChar c = false := by
    rintro _ ⟨⟩
    decide
  have hhead : field.toList.head? ≠ some '.' := by
    rintro hhead
    rw [hcs] at hhead
    cases hhead
    exact absurd hstart (by decide)
  have hlist : (object ++ "." ++ field).toList = object.toList ++ '.' :: field.toList := by
    simp [String.toList_append]
  rw [scan, hlist]
  obtain ⟨fuel, hfuel⟩ : ∃ fuel,
      2 * (object.toList ++ '.' :: field.toList).length + 2 = fuel + 4 :=
    ⟨2 * (object.toList.length + field.toList.length), by simp; omega⟩
  have hlast := @scanFrom_identifier field hfield [] (by simp) (fuel + 1) [] false
  rw [List.append_nil] at hlast
  rw [hfuel, scanFrom_identifier hobject hends, scanFrom_dot hhead, hlast]
  simp [scanFrom]

end Token

/-! ## Reading them -/

namespace Expr

theorem deeper_zero (limit : Nat) : deeper limit 0 = some 1 := by
  rw [deeper, if_pos (limit.eq_zero_or_pos)]

theorem readExpr_operand {limit fuel : Nat} {name : String} {rest : List Token} {root e : Expr}
    (hroot : readPrimary limit fuel 1 (.name name :: rest) = some (root, rest))
    (hpath : readPath limit fuel 1 root [] rest = some (e, [])) :
    readExpr limit (fuel + 2) 0 (.name name :: rest) = some (e, []) := by
  simp [readExpr, deeper_zero, readUnary, hroot, hpath, readInfix]

theorem parse?_identifier {name : String} (h : Identifier name) (limit : Nat) :
    parse? limit name = some (.name name) := by
  have hroot : readPrimary limit 14 1 [.name name] = some (.name name, []) := by
    simp [readPrimary, h.bareName?]
  have hpath : readPath limit 14 1 (.name name) [] [] = some (.name name, []) := by
    simp [readPath, along]
  rw [parse?, Token.scan_identifier h]
  simp [readExpr_operand hroot hpath]

theorem parse?_member {object field : String} (hobject : Identifier object)
    (hfield : Identifier field) (limit : Nat) :
    parse? limit (object ++ "." ++ field) =
      some (.access (.name object) [.member field false]) := by
  have hroot : readPrimary limit 30 1 [.name object, .symbol .dot, .name field] =
      some (.name object, [.symbol .dot, .name field]) := by
    simp [readPrimary, hobject.bareName?]
  have hpath : readPath limit 30 1 (.name object) [] [.symbol .dot, .name field] =
      some (.access (.name object) [.member field false], []) := by
    simp [readPath, readMember, hfield.bareName?, along]
  rw [parse?, Token.scan_member hobject hfield]
  simp [readExpr_operand hroot hpath]

end Expr

/-! ## Looking them up -/

theorem Environment.find?_eq (env : Environment) (name : String) :
    env.find? name = ((env.scope.find? name).map Datum.ofValue).or
      (((env.vars.find? name).map Datum.ofValue).or
        (if name = ownerName then env.owner.map Datum.ofFields else none)) := by
  have htable : ∀ m : NameMap Value,
      ((m.toList.map fun e => (e.1, Datum.ofValue e.2)).findRev? fun e => e.1 == name).map Prod.snd
        = (m.find? name).map Datum.ofValue := by
    intro m
    have hmap : (m.map Datum.ofValue).toList = m.toList.map fun e => (e.1, Datum.ofValue e.2) := rfl
    rw [← hmap, NameMap.findRev?_toList, NameMap.find?_map]
  have howner : ((env.owner.map fun fields => (ownerName, Datum.ofFields fields)).toList.findRev?
      fun e => e.1 == name).map Prod.snd =
        if name = ownerName then env.owner.map Datum.ofFields else none := by
    cases env.owner with
    | none => simp
    | some fields =>
        simp only [Option.map_some, Option.toList_some, List.findRev?_eq_find?_reverse,
          List.reverse_singleton, List.find?_singleton, beq_iff_eq, @eq_comm _ name]
        split <;> rfl
  rw [← htable, ← htable, ← howner]
  simp [Environment.find?, Environment.pushed, List.findRev?_eq_find?_reverse, Option.map_or]

theorem Datum.member_ofFields (fields : NameMap Value) (field : String) :
    (Datum.ofFields fields).member field =
      .ok (((fields.find? field).map Datum.ofValue).getD .unit) := by
  rw [← NameMap.find?_map]
  rfl

/-! ## What they evaluate to -/

namespace Expr

@[simp] theorem ok_bind {α β : Type} (a : α) (f : α → Except EvalError β) :
    (Except.ok a >>= f) = f a := rfl

theorem countOne_run {limit n : Nat} (h : limit = 0 ∨ n < limit) :
    (countOne limit).run n = .ok ((), n + 1) := by
  have hwithin : ¬(limit ≠ 0 ∧ limit < n + 1) := by omega
  simp only [countOne, StateT.run_bind, StateT.run_modify, StateT.run_get, pure_bind,
    if_neg hwithin, StateT.run_pure]
  rfl

theorem evaluate_name {limit n : Nat} (h : limit = 0 ∨ n < limit) (env : Environment)
    (name : String) :
    (evaluate env limit (.name name)).run n =
      match env.find? name with
      | some d => .ok (d, n + 1)
      | none => .error (.unknownName name) := by
  rw [evaluate, StateT.run_bind, countOne_run h]
  cases env.find? name <;> rfl

theorem evaluate_member {limit n : Nat} (h : limit = 0 ∨ n + 1 < limit) {env : Environment}
    {object field : String} {d d' : Datum} (hobject : env.find? object = some d)
    (hfield : d.member field = .ok d') :
    (evaluate env limit (.access (.name object) [.member field false])).run n =
      .ok (d', n + 2) := by
  have hroot : (evaluate env limit (.name object)).run (n + 1) = .ok (d, n + 2) := by
    rw [evaluate_name h, hobject]
  have hpath : (evaluatePath env limit [.member field false]).run (n + 1) =
      .ok ([(.member field, false)], n + 1) := by
    rw [evaluatePath, evaluatePath]
    rfl
  have hwalk : d.walk [(.member field, false)] = .ok d' := by
    simp [Datum.walk, Datum.take, hfield]
  rw [evaluate, StateT.run_bind, countOne_run (by omega)]
  simp [hpath, hroot, hwalk]

theorem value_eq {limit : Nat} (h : limit = 0 ∨ 0 < limit) (env : Environment) (e : Expr) :
    e.value env limit =
      match (evaluate env limit e).run 1 with
      | .error error => .error (.eval error)
      | .ok (d, _) =>
        match d.toValue? with
        | some v => .ok v
        | none => .error (.unsupported d.typeName) := by
  rw [value, StateT.run_bind, countOne_run h]
  rfl

end Expr

theorem Expression.parse_identifier {name : String} (h : Identifier name)
    (config : RuntimeConfig) : parse config name = .ok ⟨name, .name name⟩ := by
  rw [parse, Expr.parse?_identifier h]

theorem Expression.parse_member {object field : String} (hobject : Identifier object)
    (hfield : Identifier field) (config : RuntimeConfig) :
    parse config (object ++ "." ++ field) =
      .ok ⟨object ++ "." ++ field, .access (.name object) [.member field false]⟩ := by
  rw [parse, Expr.parse?_member hobject hfield]

theorem identifier_owner : Identifier ownerName where
  spelled := .of_letters (by decide) (by decide)
  free := by decide

/-- Names read back what was bound: a name is its local value, else its graph variable,
else nothing an expression may return; and a field of an owner that nothing hides is
what the object holds at that moment. -/
theorem Expression.reads_bindings (scope : LocalScope) (vars : Variables)
    (owner : Option Object) {name : String} (hname : Identifier name) :
    (∃ e, parse .default name = .ok e ∧
      e.value .default ⟨scope, vars, owner.map Object.fields⟩ =
        match scope.find? name, vars.find? name with
        | some v, _ => .ok v
        | none, some v => .ok v
        | none, none =>
          if name = ownerName ∧ owner.isSome then .error (.unsupported "map")
          else .error (.eval (.unknownName name))) ∧
    (∀ o v, owner = some o → scope.find? ownerName = none → vars.find? ownerName = none →
      o.field? name = some v →
      ∃ e, parse .default (ownerName ++ "." ++ name) = .ok e ∧
        e.value .default ⟨scope, vars, owner.map Object.fields⟩ = .ok v) := by
  refine ⟨⟨_, parse_identifier hname .default, ?_⟩, ?_⟩
  · rw [value, Expr.value_eq (by decide), Expr.evaluate_name (by decide), Environment.find?_eq]
    cases hscope : scope.find? name with
    | some v => simp
    | none =>
        cases hvars : vars.find? name with
        | some v => simp
        | none =>
            by_cases hown : name = ownerName
            · cases owner with
              | none => simp
              | some o => simp [hown, Datum.ofFields, Datum.toValue?, Datum.typeName]
            · simp [hown]
  · intro o v howner hscope hvars hfield
    refine ⟨_, parse_member identifier_owner hname .default, ?_⟩
    have hobject : Environment.find? ⟨scope, vars, owner.map Object.fields⟩ ownerName =
        some (.ofFields o.fields) := by
      simp [Environment.find?_eq, hscope, hvars, howner]
    have hmember : (Datum.ofFields o.fields).member name = .ok (.ofValue v) := by
      have hfind : o.fields.find? name = some v := hfield
      rw [Datum.member_ofFields, hfind]
      rfl
    rw [value, Expr.value_eq (by decide), Expr.evaluate_member (by decide) hobject hmember]
    simp

theorem Expression.reads_bindings_speed :
    let scope := LocalScope.forEvent "onHit" (NameMap.empty.insert "speed" (.list [.list [.int 1]]))
    let vars := NameMap.empty.insert "speed" (.int 99)
    let owner := (Object.actor "Car").withField "speed" (.bool true)
    (∃ e, parse .default "speed" = .ok e ∧
      e.value .default ⟨scope, vars, some owner.fields⟩ = .ok (.list [.list [.int 1]])) ∧
    ∃ e, parse .default (ownerName ++ "." ++ "speed") = .ok e ∧
      e.value .default ⟨scope, vars, some owner.fields⟩ = .ok (.bool true) := by
  intro scope vars owner
  have hspeed : Identifier "speed" :=
    { spelled := .of_letters (by decide) (by decide)
      free := by decide }
  obtain ⟨⟨e, hparse, hvalue⟩, hfield⟩ := reads_bindings scope vars (some owner) hspeed
  exact ⟨⟨e, hparse, hvalue⟩, hfield owner (.bool true) rfl rfl rfl rfl⟩

end Nodeflow
