import CelWasm.Compiler.Ast
import CelWasm.Runtime.MapPairs

/-!
# Compiler/LiteralBuild — building a literal at run time

A list or map literal without a place in rodata is built anew in every evaluation: create, then one
append or insert for each element, and for a map the index at the end. A key of a kind no map takes
makes the map an error, and an error inside a literal is the whole literal's.
-/

namespace CelWasm

section Build

variable (other : Expr NodeRepr → Kernel CelValue)

/-- The value of a constant node; where the checker found a type, its name. -/
def constValue (repr : NodeRepr) (c : Constant) : CelValue :=
  match repr, c with
  | .type, .string name => .type name
  | _, c => c.value

/-- The append of one element. -/
def appendElement (optional : Bool) (list value : CelValue) : Kernel CelValue :=
  if optional then celListAppendAtIfPresent list value else celListAppendAt list value

/-- The insert of one entry. -/
def insertEntry (optional : Bool) (m key value : CelValue) : Kernel CelValue :=
  if optional then celMapInsertAtIfPresent m key value else return celMapInsert m key value

mutual

/-- **`EmitKListExpr` and `EmitKMapExpr`** on the path that builds; `other` evaluates whatever is
neither a constant nor such a literal. -/
def build : Expr NodeRepr → Kernel CelValue
  | .const repr c => return constValue repr c
  | .list _ elements optionals => do
    let list ← celListCreate elements.length
    buildElements elements optionals list
  | .map _ entries => do
    let m ← celMapCreate entries.toList.length
    let m ← buildEntries entries m
    celMapIndexBuild m
  | e => other e

def buildElements : List (Expr NodeRepr) → List Bool → CelValue → Kernel CelValue
  | [], _, list => return list
  | e :: es, optionals, list => do
    let value ← build e
    let list ← appendElement (optionals.headD false) list value
    buildElements es optionals.tail list

def buildEntries : MapEntries NodeRepr → CelValue → Kernel CelValue
  | .nil, m => return m
  | .cons optional key value rest, m => do
    let k ← build key
    let v ← build value
    let m ← insertEntry optional m k v
    buildEntries rest m

end

end Build

/-! ## Legal keys -/

/-- The key is a bool, int, uint or string constant. -/
def isLegalKey : Expr NodeRepr → Bool
  | .const _ c => isValidMapKeyKind c.value
  | _ => false

mutual

/-- **Every map literal in a literal has only keys that are bool, int, uint or string constants.** -/
def legalKeys : Expr NodeRepr → Bool
  | .list _ elements _ => legalKeysList elements
  | .map _ entries => legalKeysEntries entries
  | _ => true

def legalKeysList : List (Expr NodeRepr) → Bool
  | [] => true
  | e :: es => legalKeys e && legalKeysList es

def legalKeysEntries : MapEntries NodeRepr → Bool
  | .nil => true
  | .cons _ key value rest => isLegalKey key && legalKeys value && legalKeysEntries rest

end

/-! ## What a literal is built to -/

/-- **A literal is built to `v`** if its keys are legal, and to a poison otherwise; `v` itself is none,
and it is of a kind for a key exactly if the literal is one. -/
structure BuiltTo (other : Expr NodeRepr → Kernel CelValue) (e : Expr NodeRepr) (v : CelValue) : Prop where
  live : v.isPoison = false
  keyKind : isValidMapKeyKind v = isLegalKey e
  built : ∃ r, (build other e).granted = .ok r ∧ (legalKeys e = true → r = v) ∧
    (legalKeys e = false → r.isPoison = true)

section BuiltTo

variable {other : Expr NodeRepr → Kernel CelValue}

theorem builtTo_const {repr : NodeRepr} (c : Constant) (hrepr : repr ≠ .type) :
    BuiltTo other (.const repr c) c.value where
  live := by cases c <;> rfl
  keyKind := rfl
  built := by
    have hvalue : constValue repr c = c.value := by cases repr <;> first | rfl | exact absurd rfl hrepr
    exact ⟨c.value, by rw [build, hvalue]; rfl, fun _ => rfl, nofun⟩

/-- Appends to a poisoned list leave it. -/
theorem buildElements_poison {p : CelValue} (hp : p.isPoison = true) :
    ∀ {es : List (Expr NodeRepr)} {vs : List CelValue} {optionals : List Bool},
      List.Forall₂ (BuiltTo other) es vs → (buildElements other es optionals p).granted = .ok p
  | [], _, _, _ => rfl
  | e :: es, _, optionals, .cons he hes => by
    obtain ⟨r, hr, -⟩ := he.built
    have happend : appendElement (optionals.headD false) p r = return p := by
      unfold appendElement
      obtain ⟨c, rfl⟩ | ⟨s, rfl⟩ := CelValue.isPoison_iff.mp hp <;> split_ifs <;> rfl
    rw [buildElements, Prog.granted_bind, hr]
    change (appendElement _ p r >>= fun list =>
      buildElements other es optionals.tail list).granted = _
    rw [happend, pure_bind]
    exact buildElements_poison hp hes

/-- **Building a list**: its elements in order, or a poison. -/
theorem buildElements_spec (capacity : ℕ) : ∀ (es : List (Expr NodeRepr)) (done : List CelValue)
    {vs : List CelValue} {optionals : List Bool}, List.Forall₂ (BuiltTo other) es vs →
    (∀ o ∈ optionals, o = false) → done.length + es.length ≤ capacity →
    ∃ r, (buildElements other es optionals (.listArena capacity done)).granted = .ok r ∧
      (legalKeysList es = true → r = .listArena capacity (done ++ vs)) ∧
      (legalKeysList es = false → r.isPoison = true)
  | [], done, _, _, .nil, _, _ => ⟨_, rfl, fun _ => by rw [List.append_nil], nofun⟩
  | e :: es, done, v :: vs, optionals, .cons he hes, hplain, hroom => by
    rw [List.length_cons] at hroom
    obtain ⟨r, hr, hlegal, hpoison⟩ := he.built
    have hplain' : optionals.headD false = false := by
      cases optionals with
      | nil => rfl
      | cons o os => exact hplain o List.mem_cons_self
    have htail : ∀ o ∈ optionals.tail, o = false := fun o ho => hplain o (List.mem_of_mem_tail ho)
    rw [buildElements, Prog.granted_bind, hr]
    change ∃ r', (appendElement _ _ r >>= fun list =>
      buildElements other es optionals.tail list).granted = _ ∧ _
    rw [hplain', appendElement, if_neg Bool.false_ne_true, legalKeysList]
    cases hkeys : legalKeys e with
    | true =>
      obtain rfl := hlegal hkeys
      have happend : celListAppendAt (.listArena capacity done) r
          = return .listArena capacity (done ++ [r]) := by
        rw [celListAppendAt, he.live, if_neg Bool.false_ne_true, if_neg (by omega)]
      obtain ⟨r', hr', hlegal', hpoison'⟩ := buildElements_spec capacity es (done ++ [r]) hes
        htail (by rw [List.length_append, List.length_singleton]; omega)
      rw [happend, pure_bind, Bool.true_and]
      exact ⟨r', hr', fun h => by rw [hlegal' h, List.append_assoc]; rfl, hpoison'⟩
    | false =>
      have hr' := hpoison hkeys
      have happend : celListAppendAt (.listArena capacity done) r = return r := by
        rw [celListAppendAt, hr', if_pos rfl]
      rw [happend, pure_bind, Bool.false_and]
      exact ⟨r, buildElements_poison hr' hes, nofun, fun _ => hr'⟩

theorem builtTo_list {repr : NodeRepr} {es : List (Expr NodeRepr)} {vs : List CelValue}
    {optionals : List Bool} (h : List.Forall₂ (BuiltTo other) es vs)
    (hplain : ∀ o ∈ optionals, o = false)
    (hfit : es.length * kCelListEntryStride ≤ 2 ^ 32 - 8) :
    BuiltTo other (.list repr es optionals) (.listArena es.length vs) where
  live := rfl
  keyKind := rfl
  built := by
    obtain ⟨r, hr, hlegal, hpoison⟩ :=
      buildElements_spec es.length es [] h hplain (by simp)
    refine ⟨r, ?_, hlegal, hpoison⟩
    rw [build, Prog.granted_bind, granted_celListCreate, if_pos hfit]
    exact hr

/-! ### Maps -/

/-- The key and the value of an entry, which is not optional, are built to those of a pair. -/
def EntryBuiltTo (other : Expr NodeRepr → Kernel CelValue)
    (e : Bool × Expr NodeRepr × Expr NodeRepr) (p : CelValue × CelValue) : Prop :=
  e.1 = false ∧ BuiltTo other e.2.1 p.1 ∧ BuiltTo other e.2.2 p.2

/-- The pair an entry comes to at run time: the one it is built to if its key and value are legal,
and otherwise one that spoils a map. -/
def RunsTo (other : Expr NodeRepr → Kernel CelValue) (e : Bool × Expr NodeRepr × Expr NodeRepr)
    (p r : CelValue × CelValue) : Prop :=
  (build other e.2.1).granted = .ok r.1 ∧ (build other e.2.2).granted = .ok r.2 ∧
    ((isLegalKey e.2.1 && legalKeys e.2.2) = true → r = p ∧ spoil r.1 r.2 = none) ∧
    ((isLegalKey e.2.1 && legalKeys e.2.2) = false → spoil r.1 r.2 ≠ none)

theorem legalKeys_of_isLegalKey {e : Expr NodeRepr} (h : isLegalKey e = true) :
    legalKeys e = true := by
  cases e <;> first | rfl | exact nomatch h

theorem EntryBuiltTo.runs {e : Bool × Expr NodeRepr × Expr NodeRepr} {p : CelValue × CelValue}
    (h : EntryBuiltTo other e p) : ∃ r, RunsTo other e p r := by
  obtain ⟨-, hkey, hvalue⟩ := h
  obtain ⟨rk, hrk, hklegal, hkpoison⟩ := hkey.built
  obtain ⟨rv, hrv, hvlegal, hvpoison⟩ := hvalue.built
  refine ⟨(rk, rv), hrk, hrv, fun hlegal => ?_, fun hillegal => ?_⟩
  · rw [Bool.and_eq_true] at hlegal
    obtain rfl := hklegal (legalKeys_of_isLegalKey hlegal.1)
    obtain rfl := hvlegal hlegal.2
    refine ⟨rfl, ?_⟩
    rw [spoil, hkey.live, hvalue.live, hkey.keyKind, hlegal.1]
    rfl
  · intro hspoil
    unfold spoil at hspoil
    split_ifs at hspoil with hkp hvp hvalid
    cases hk : legalKeys e.2.1 with
    | false => exact hkp (hkpoison hk)
    | true =>
      cases hv : legalKeys e.2.2 with
      | false => exact hvp (hvpoison hv)
      | true =>
        obtain rfl := hklegal hk
        rw [hv, Bool.and_true, ← hkey.keyKind] at hillegal
        exact hvalid (by rw [hillegal]; rfl)

/-- **Building a map inserts a run of pairs**: those the entries are built to if all are legal, and a
run that spoils the map otherwise; up to there the staged keys are its keys. -/
theorem buildEntries_runs : ∀ {entries : MapEntries NodeRepr} {ps : List (CelValue × CelValue)}
    {staged : List CelValue}, List.Forall₂ (EntryBuiltTo other) entries.toList ps →
    List.Forall₂ (fun s p => isValidMapKeyKind p.1 = true → s = p.1) staged ps →
    ∃ rs, (∀ m, (buildEntries other entries m).granted = .ok (rs.foldl insertLiteralPair m)) ∧
      List.Forall₂ (fun s r => spoil r.1 r.2 = none → s = r.1) staged rs ∧
      (legalKeysEntries entries = true → rs = ps ∧ firstSpoil rs = none) ∧
      (legalKeysEntries entries = false → firstSpoil rs ≠ none)
  | .nil, _, _, .nil, .nil => ⟨[], fun _ => rfl, .nil, fun _ => ⟨rfl, rfl⟩, nofun⟩
  | .cons optional key value rest, p :: ps, s :: staged, .cons he hes, .cons hs hstaged => by
    obtain ⟨rs, hrun, hkeys, hlegals, hillegals⟩ := buildEntries_runs hes hstaged
    obtain ⟨r, hrk, hrv, hlegal, hillegal⟩ := he.runs
    obtain rfl : optional = false := he.1
    refine ⟨r :: rs, fun m => ?_, .cons (fun hspoil => ?_) hkeys, fun hall => ?_, fun hnot => ?_⟩
    · rw [buildEntries, Prog.granted_bind, hrk]
      change ((build other value) >>= fun v => insertEntry false m r.1 v >>= fun m =>
        buildEntries other rest m).granted = _
      rw [Prog.granted_bind, hrv]
      exact hrun _
    · cases hboth : isLegalKey key && legalKeys value with
      | true =>
        rw [(hlegal hboth).1]
        exact hs (he.2.1.keyKind.trans (Bool.and_eq_true_iff.mp hboth).1)
      | false => exact absurd hspoil (hillegal hboth)
    · rw [legalKeysEntries, Bool.and_eq_true_iff] at hall
      obtain ⟨rfl, hspoil⟩ := hlegal hall.1
      obtain ⟨rfl, hnone⟩ := hlegals hall.2
      exact ⟨rfl, by rw [firstSpoil, List.findSome?_cons, hspoil]; exact hnone⟩
    · rw [legalKeysEntries, Bool.and_eq_false_iff] at hnot
      rw [firstSpoil, List.findSome?_cons]
      cases hspoil : spoil r.1 r.2 with
      | some q => exact Option.some_ne_none q
      | none =>
        rcases hnot with hhead | hrest
        · exact absurd hspoil (hillegal hhead)
        · exact hillegals hrest

/-- Staged keys that differ make a run without a repeated key, up to what spoils it. -/
theorem cleanKeys_of_staged {staged : List CelValue} {rs : List (CelValue × CelValue)}
    (h : List.Forall₂ (fun s r => spoil r.1 r.2 = none → s = r.1) staged rs)
    (hdistinct : staged.Pairwise fun a b => celMapKeyEq a b = false) : CleanKeys rs := by
  induction h with
  | nil => exact .nil
  | @cons s r staged rs hs hrest ih =>
    obtain ⟨hfirst, hdistinct⟩ := List.pairwise_cons.mp hdistinct
    rw [CleanKeys, List.takeWhile_cons]
    cases hspoil : spoil r.1 r.2 with
    | some q => exact .nil
    | none =>
      refine .cons (fun r' hr' => ?_) (ih hdistinct)
      have hnone := List.mem_takeWhile_imp hr'
      rw [Option.isNone_iff_eq_none] at hnone
      obtain ⟨i, hi, rfl⟩ := List.getElem_of_mem (List.takeWhile_subset _ hr')
      have hi' : i < staged.length := hrest.length_eq ▸ hi
      have hkey : staged[i] = rs[i].1 := (List.forall₂_iff_get.mp hrest).2 i hi' hi hnone
      rw [← hs hspoil, ← hkey]
      exact hfirst _ (List.getElem_mem hi')

/-- Over an unspoiled run the staged keys are its keys. -/
theorem staged_eq_of_unspoiled {staged : List CelValue} {rs : List (CelValue × CelValue)}
    (h : List.Forall₂ (fun s r => spoil r.1 r.2 = none → s = r.1) staged rs)
    (hnone : firstSpoil rs = none) : staged = rs.map Prod.fst := by
  have hall := List.findSome?_eq_none_iff.mp hnone
  induction h with
  | nil => rfl
  | cons hs _ ih =>
    obtain ⟨hhead, htail⟩ := List.forall_mem_cons.mp hall
    rw [List.map_cons, hs hhead, ih (List.findSome?_eq_none_iff.mpr htail) htail]

/-- **A map literal is built to the map of its entries**, with the index of their keys. -/
theorem builtTo_map {repr : NodeRepr} {entries : MapEntries NodeRepr}
    {ps : List (CelValue × CelValue)} {staged : List CelValue} {index : Option MapIndex}
    (h : List.Forall₂ (EntryBuiltTo other) entries.toList ps)
    (hstaged : List.Forall₂ (fun s p => isValidMapKeyKind p.1 = true → s = p.1) staged ps)
    (hdistinct : staged.Pairwise fun a b => celMapKeyEq a b = false) (hindex : IndexOf staged index)
    (hfit : entries.toList.length * kCelMapEntryStride ≤ 2 ^ 32 - 8) :
    BuiltTo other (.map repr entries) (.mapArena entries.toList.length ps index) where
  live := rfl
  keyKind := rfl
  built := by
    obtain ⟨rs, hrun, hkeys, hlegal, hillegal⟩ := buildEntries_runs h hstaged
    have hlength : rs.length = entries.toList.length :=
      hkeys.length_eq.symm.trans (hstaged.length_eq.trans h.length_eq.symm)
    obtain ⟨hpoison, hlive⟩ := foldl_insertLiteralPair_of_clean rs []
      (show [].length + rs.length ≤ entries.toList.length by simp [hlength])
      (cleanKeys_of_staged hkeys hdistinct)
    have hbuild : (build other (.map repr entries)).granted = (celMapIndexBuild
        (rs.foldl insertLiteralPair (.mapArena entries.toList.length [] none))).granted := by
      rw [build, Prog.granted_bind, granted_celMapCreate, if_pos hfit]
      change ((buildEntries other entries _) >>= celMapIndexBuild).granted = _
      rw [Prog.granted_bind, hrun]
      rfl
    rw [hbuild]
    cases hkeysLegal : legalKeysEntries entries with
    | true =>
      obtain ⟨rfl, hnone⟩ := hlegal hkeysLegal
      obtain rfl := staged_eq_of_unspoiled hkeys hnone
      rw [hlive hnone]
      exact ⟨_, granted_celMapIndexBuild_of_indexOf hindex, fun _ => rfl,
        fun h => absurd (h.symm.trans hkeysLegal) (by decide)⟩
    | false =>
      obtain ⟨p, hp⟩ := Option.ne_none_iff_exists'.mp (hillegal hkeysLegal)
      obtain ⟨pair, -, hspoil⟩ := List.exists_of_findSome?_eq_some hp
      have hq := isPoison_of_spoil hspoil
      rw [hpoison p hp, celMapIndexBuild_poison hq]
      exact ⟨p, rfl, fun h => absurd (h.symm.trans hkeysLegal) (by decide), fun _ => hq⟩

end BuiltTo

end CelWasm
