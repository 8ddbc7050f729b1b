import CelWasm.Compiler.FunctionLibrary
import CelWasm.Library.CharReplace
import CelWasm.Library.Fallible
import CelWasm.Library.Pieces

/-!
# Compiler/OverloadIds — what two overload ids have in common

An overload id is cut at its underscores: the parts of the function's name, and behind them the parts
of each parameter's slug. Slugs are read off from the front, word by word, so that two declarations
have one id only where a name of one, of the function or of a message, goes on as the slugs behind the
same name do in the other: `f_list(int)` and `f(list<int>)`. For any two names that meet so there are
declarations of one id (`overloadIds_meet`). A library that is built has no two of them all the same:
the second is refused.
-/

namespace CelWasm

/-! ## Parts -/

/-- The parts of a text between separators. -/
def parts (sep : Char) (text : String) : List (List Char) := text.toList.splitOn sep

theorem parts_injective (sep : Char) : Function.Injective (parts sep) := fun s t h =>
  String.toList_inj.mp <| calc
    s.toList = [sep].intercalate (parts sep s) := (List.intercalate_splitOn sep).symm
    _ = [sep].intercalate (parts sep t) := by rw [h]
    _ = t.toList := List.intercalate_splitOn sep

/-- A word and an underscore in front of a text are one part more. -/
theorem parts_append {lead word text : String} (hlead : lead.toList = word.toList ++ ['_'])
    (h : '_' ∉ word.toList) : parts '_' (lead ++ text) = word.toList :: parts '_' text := by
  rw [parts, String.toList_append, hlead, List.append_assoc]
  exact List.splitOn_append_cons_self_of_not_mem h _

/-- An underscore between two texts parts them. -/
theorem parts_append_append (text text' : String) :
    parts '_' (text ++ "_" ++ text') = parts '_' text ++ parts '_' text' := by
  rw [parts, String.toList_append, String.toList_append, List.append_assoc]
  exact List.splitOn_append_cons_self _ _

/-- A text that is put together of others has the parts of each. -/
theorem parts_intercalate {texts : List String} (h : texts ≠ []) :
    parts '_' ("_".intercalate texts) = texts.flatMap (parts '_') := by
  induction texts with
  | nil => exact absurd rfl h
  | cons text texts ih =>
    cases texts with
    | nil => simp
    | cons text' texts =>
      rw [String.intercalate_cons_cons, parts_append_append, ih (List.cons_ne_nil _ _)]
      rfl

/-- **The parts of the name of a message**: it is cut at dots and at underscores. -/
def messageParts (fqn : String) : List (List Char) := fqn.toList.splitOnP fun c => c == '.' || c == '_'

/-- Dots become underscores, and the parts are the same. -/
theorem splitOn_map_swapChar (name : List Char) : (name.map (swapChar '.' '_')).splitOn '_'
    = name.splitOnP fun c => c == '.' || c == '_' := by
  induction name with
  | nil => rfl
  | cons c name ih =>
    rw [List.map_cons, List.splitOn_cons_eq_if_modifyHead, List.splitOnP_cons_eq_if_modifyHead, ih,
      swapChar]
    by_cases hdot : c = '.'
    · simp [hdot]
    · simp [hdot]

theorem parts_replace (fqn : String) : parts '_' (fqn.replace "." "_") = messageParts fqn := by
  rw [parts, toList_replace (c := '.') (d := '_') rfl rfl, splitOn_map_swapChar, messageParts]

/-- A part has no separator in it. -/
theorem not_mem_of_mem_messageParts {fqn : String} {part : List Char}
    (h : part ∈ messageParts fqn) : '.' ∉ part ∧ '_' ∉ part := by
  have hcut := not_cut_of_mem_splitOnP h
  exact ⟨fun hmem => absurd (hcut _ hmem) (by decide), fun hmem => absurd (hcut _ hmem) (by decide)⟩

theorem replace_eq {fqn flat : String} (h : fqn.toList.map (swapChar '.' '_') = flat.toList) :
    fqn.replace "." "_" = flat :=
  String.toList_inj.mp ((toList_replace rfl rfl fqn).trans h)

/-- **Parts that have no separator in them are those of a name.** -/
theorem exists_messageParts_eq {ext : List (List Char)} (hne : ext ≠ [])
    (h : ∀ part ∈ ext, '.' ∉ part ∧ '_' ∉ part) : ∃ fqn, messageParts fqn = ext := by
  refine ⟨String.ofList (['_'].intercalate ext), ?_⟩
  have hkept : ∀ c ∈ ['_'].intercalate ext, swapChar '.' '_' c = c := by
    intro c hc
    refine if_neg fun hdot => ?_
    obtain hsep | ⟨part, hpart, hmem⟩ := mem_intercalate hc
    · rw [hdot, List.mem_singleton] at hsep
      exact absurd hsep (by decide)
    · exact (h part hpart).1 (hdot ▸ hmem)
  rw [messageParts, String.toList_ofList, ← splitOn_map_swapChar, List.map_congr_left hkept,
    List.map_id', List.splitOn_intercalate _ (fun part hpart => (h part hpart).2) hne]

/-! ## Slugs -/

namespace CelType

/-- **The parts of a slug.** -/
def slugParts : CelType → List (List Char)
  | list element => "list".toList :: element.slugParts
  | map key value => "map".toList :: (key.slugParts ++ value.slugParts)
  | message fqn => "message".toList :: messageParts fqn
  | optional element => "optional".toList :: element.slugParts
  | t => [t.kindName.toList]

/-- **The slug of a type has the parts of the type.** -/
theorem parts_argkindSlug {t : CelType} {slug : String} (h : t.argkindSlug = .ok slug) :
    parts '_' slug = t.slugParts := by
  induction t generalizing slug with
  | unknown => exact nomatch h
  | list element ih =>
    obtain ⟨s, hs, h⟩ := bind_eq_ok_iff.mp h
    rw [slugParts, ← ih hs, ← Except.ok.inj h]
    exact parts_append (by simp) (by simp)
  | optional element ih =>
    obtain ⟨s, hs, h⟩ := bind_eq_ok_iff.mp h
    rw [slugParts, ← ih hs, ← Except.ok.inj h]
    exact parts_append (by simp) (by simp)
  | map key value ihKey ihValue =>
    obtain ⟨s, hs, h⟩ := bind_eq_ok_iff.mp h
    obtain ⟨s', hs', h⟩ := bind_eq_ok_iff.mp h
    rw [slugParts, ← ihKey hs, ← ihValue hs', ← Except.ok.inj h, parts_append_append,
      ← List.cons_append]
    exact congrArg (· ++ _) (parts_append (by simp) (by simp))
  | message fqn =>
    rw [slugParts, ← parts_replace, ← Except.ok.inj h]
    exact parts_append (by simp) (by simp)
  | _ =>
    rw [← Except.ok.inj h]
    exact List.splitOn_eq_singleton (by simp)

/-- What a type is called begins its slug. -/
theorem head_slugParts (t : CelType) : ∃ below, t.slugParts = t.kindName.toList :: below := by
  cases t <;> exact ⟨_, rfl⟩

/-- The first words of two slugs tell what kinds the types are of. -/
theorem kindName_eq_of_append {t t' : CelType} {rest rest' : List (List Char)}
    (h : t.slugParts ++ rest = t'.slugParts ++ rest') : t.kindName = t'.kindName := by
  obtain ⟨below, hbelow⟩ := t.head_slugParts
  obtain ⟨below', hbelow'⟩ := t'.head_slugParts
  rw [hbelow, hbelow'] at h
  exact String.toList_inj.mp (List.cons.inj h).1

/-- Only a type that is set has a slug, -/
theorem hasUnset_of_argkindSlug {t : CelType} {slug : String} (h : t.argkindSlug = .ok slug) :
    t.hasUnset = false := by
  induction t generalizing slug with
  | unknown => exact nomatch h
  | list element ih | optional element ih =>
    obtain ⟨s, hs, -⟩ := bind_eq_ok_iff.mp h
    exact ih hs
  | map key value ihKey ihValue =>
    obtain ⟨s, hs, h⟩ := bind_eq_ok_iff.mp h
    obtain ⟨s', hs', -⟩ := bind_eq_ok_iff.mp h
    rw [hasUnset, ihKey hs, ihValue hs']
    rfl
  | _ => rfl

/-- …and every one has. -/
theorem exists_argkindSlug {t : CelType} (h : t.hasUnset = false) :
    ∃ slug, t.argkindSlug = .ok slug := by
  induction t with
  | unknown => exact nomatch h
  | list element ih | optional element ih =>
    obtain ⟨s, hs⟩ := ih h
    exact ⟨_, bind_eq_ok_iff.mpr ⟨s, hs, rfl⟩⟩
  | map key value ihKey ihValue =>
    rw [hasUnset, Bool.or_eq_false_iff] at h
    obtain ⟨s, hs⟩ := ihKey h.1
    obtain ⟨s', hs'⟩ := ihValue h.2
    exact ⟨_, bind_eq_ok_iff.mpr ⟨s, hs, bind_eq_ok_iff.mpr ⟨s', hs', rfl⟩⟩⟩
  | _ => exact ⟨_, rfl⟩

end CelType

open CelType

/-- The types of a list are all set. -/
def AllSet (ts : List CelType) : Prop := ∀ t ∈ ts, t.hasUnset = false

/-! ## Names that meet -/

/-- **A text goes on from another as slugs begin.** -/
def GoesOn (stem text : List (List Char)) : Prop :=
  ∃ ext ts, text = stem ++ ext ∧ ext ≠ [] ∧ AllSet ts ∧ ext <+: ts.flatMap slugParts

/-- **The names of two functions meet**: one goes on from the other as slugs begin. -/
def NamesMeet (name name' : String) : Prop :=
  GoesOn (parts '_' name) (parts '_' name') ∨ GoesOn (parts '_' name') (parts '_' name)

/-- **The names of two messages meet**: they have the same parts, or one goes on from the other as
slugs begin. -/
def MessagesMeet (fqn fqn' : String) : Prop :=
  messageParts fqn = messageParts fqn' ∨ GoesOn (messageParts fqn) (messageParts fqn') ∨
    GoesOn (messageParts fqn') (messageParts fqn)

/-- **The first place where two types differ is in the names of two messages, which meet.** -/
inductive Confused : CelType → CelType → Prop
  | message {fqn fqn' : String} (hne : fqn ≠ fqn') (h : MessagesMeet fqn fqn') :
    Confused (.message fqn) (.message fqn')
  | list {t t' : CelType} (h : Confused t t') : Confused (.list t) (.list t')
  | optional {t t' : CelType} (h : Confused t t') : Confused (.optional t) (.optional t')
  | key {k k' v v' : CelType} (h : Confused k k') : Confused (.map k v) (.map k' v')
  | value {k v v' : CelType} (h : Confused v v') : Confused (.map k v) (.map k v')

/-- …and of two lists of types. -/
inductive ConfusedAll : List CelType → List CelType → Prop
  | head {t t' : CelType} {ts ts' : List CelType} (h : Confused t t') :
    ConfusedAll (t :: ts) (t' :: ts')
  | tail {t : CelType} {ts ts' : List CelType} (h : ConfusedAll ts ts') :
    ConfusedAll (t :: ts) (t :: ts')

/-- Two messages where two lists begin are the same, or their names meet. -/
theorem ConfusedAll.of_message {fqn fqn' : String} {ts ts' : List CelType}
    (h : ConfusedAll (.message fqn :: ts) (.message fqn' :: ts')) :
    fqn = fqn' ∨ MessagesMeet fqn fqn' := by
  generalize hleft : CelType.message fqn :: ts = left at h
  generalize hright : CelType.message fqn' :: ts' = right at h
  cases h with
  | head h =>
    rw [← (List.cons.inj hleft).1, ← (List.cons.inj hright).1] at h
    obtain ⟨-, h⟩ := h
    exact .inr h
  | tail h =>
    have hhead := (List.cons.inj hleft).1.trans (List.cons.inj hright).1.symm
    exact .inl (CelType.message.inj hhead)

theorem not_goesOn_self (stem : List (List Char)) : ¬GoesOn stem stem := by
  rintro ⟨ext, ts, heq, hne, -⟩
  exact hne (List.append_right_eq_self.mp heq.symm)

/-- A name does not meet itself. -/
theorem not_namesMeet_self (name : String) : ¬NamesMeet name name :=
  not_or.mpr ⟨not_goesOn_self _, not_goesOn_self _⟩

/-- **What is in front of slugs ends where they begin**, or goes on as they do. -/
theorem append_slugs_cases {stem stem' : List (List Char)} {ts ts' : List CelType} (hset : AllSet ts)
    (hset' : AllSet ts') (h : stem ++ ts.flatMap slugParts = stem' ++ ts'.flatMap slugParts) :
    (stem = stem' ∧ ts.flatMap slugParts = ts'.flatMap slugParts) ∨
      GoesOn stem stem' ∨ GoesOn stem' stem := by
  obtain ⟨ext, hstem, hrest⟩ | ⟨ext, hstem, hrest⟩ := List.append_eq_append_iff.mp h
  · by_cases hext : ext = []
    · subst hext
      exact .inl ⟨by rw [hstem, List.append_nil], hrest⟩
    · exact .inr (.inl ⟨ext, ts, hstem, hext, hset, hrest ▸ List.prefix_append _ _⟩)
  · by_cases hext : ext = []
    · subst hext
      exact .inl ⟨by rw [hstem, List.append_nil], hrest.symm⟩
    · exact .inr (.inr ⟨ext, ts', hstem, hext, hset', hrest ▸ List.prefix_append _ _⟩)

/-- **Slugs are read off from the front**, up to messages whose names meet. -/
theorem slugParts_append_cases {t t' : CelType} {ts ts' : List CelType} (hset : AllSet (t :: ts))
    (hset' : AllSet (t' :: ts'))
    (h : t.slugParts ++ ts.flatMap slugParts = t'.slugParts ++ ts'.flatMap slugParts) :
    (t = t' ∧ ts.flatMap slugParts = ts'.flatMap slugParts) ∨ Confused t t' := by
  have hname := kindName_eq_of_append h
  rw [AllSet, List.forall_mem_cons] at hset hset'
  induction t generalizing t' ts ts' with
  | list element ih =>
    cases t' with
    | list element' =>
      have hbelow : element.slugParts ++ ts.flatMap slugParts
          = element'.slugParts ++ ts'.flatMap slugParts := (List.cons.inj h).2
      exact (@ih element' _ _ hset hset' hbelow (kindName_eq_of_append hbelow)).imp
        (fun ⟨heq, hrest⟩ => ⟨heq ▸ rfl, hrest⟩) .list
    | _ => simp [kindName] at hname
  | optional element ih =>
    cases t' with
    | optional element' =>
      have hbelow : element.slugParts ++ ts.flatMap slugParts
          = element'.slugParts ++ ts'.flatMap slugParts := (List.cons.inj h).2
      exact (@ih element' _ _ hset hset' hbelow (kindName_eq_of_append hbelow)).imp
        (fun ⟨heq, hrest⟩ => ⟨heq ▸ rfl, hrest⟩) .optional
    | _ => simp [kindName] at hname
  | map key value ihKey ihValue =>
    cases t' with
    | map key' value' =>
      rw [hasUnset, Bool.or_eq_false_iff] at hset hset'
      have hbelow : key.slugParts ++ (value :: ts).flatMap slugParts
          = key'.slugParts ++ (value' :: ts').flatMap slugParts := by
        simpa [slugParts] using h
      obtain ⟨rfl, hvalue⟩ | hconfused := ihKey
        ⟨hset.1.1, List.forall_mem_cons.mpr ⟨hset.1.2, hset.2⟩⟩
        ⟨hset'.1.1, List.forall_mem_cons.mpr ⟨hset'.1.2, hset'.2⟩⟩ hbelow
        (kindName_eq_of_append hbelow)
      · exact (@ihValue value' _ _ ⟨hset.1.2, hset.2⟩ ⟨hset'.1.2, hset'.2⟩ hvalue
          (kindName_eq_of_append hvalue)).imp (fun ⟨heq, hrest⟩ => ⟨heq ▸ rfl, hrest⟩) .value
      · exact .inr (.key hconfused)
    | _ => simp [kindName] at hname
  | message fqn =>
    cases t' with
    | message fqn' =>
      by_cases hfqn : fqn = fqn'
      · subst hfqn
        exact .inl ⟨rfl, List.append_cancel_left h⟩
      · obtain ⟨hsame, -⟩ | hgoes := append_slugs_cases hset.2 hset'.2 (List.cons.inj h).2
        · exact .inr (.message hfqn (.inl hsame))
        · exact .inr (.message hfqn (.inr hgoes))
    | _ => simp [kindName] at hname
  | _ =>
    cases t' <;> first
      | (refine absurd hname ?_; simp [kindName]; done)
      | exact .inl ⟨rfl, List.append_cancel_left h⟩

/-- **A list of types is read off from the slugs**, up to messages whose names meet. -/
theorem flatMap_slugParts_cases {ts ts' : List CelType} (hset : AllSet ts) (hset' : AllSet ts')
    (h : ts.flatMap slugParts = ts'.flatMap slugParts) : ts = ts' ∨ ConfusedAll ts ts' := by
  induction ts generalizing ts' with
  | nil =>
    cases ts' with
    | nil => exact .inl rfl
    | cons t' ts' =>
      obtain ⟨below, hbelow⟩ := t'.head_slugParts
      rw [List.flatMap_cons, hbelow] at h
      exact nomatch h
  | cons t ts ih =>
    cases ts' with
    | nil =>
      obtain ⟨below, hbelow⟩ := t.head_slugParts
      rw [List.flatMap_cons, hbelow] at h
      exact nomatch h
    | cons t' ts' =>
      rw [List.flatMap_cons, List.flatMap_cons] at h
      obtain ⟨rfl, hrest⟩ | hconfused := slugParts_append_cases hset hset' h
      · rw [AllSet, List.forall_mem_cons] at hset hset'
        exact (ih hset.2 hset'.2 hrest).imp (congrArg _) .tail
      · exact .inr (.head hconfused)

/-! ## Ids -/

/-- **The parts of an overload id**: those of the name, and those of the slugs. -/
theorem parts_synthesiseOverloadId {fnName overloadId : String} {params : List CelfnParam}
    (h : synthesiseOverloadId fnName params = .ok overloadId) :
    parts '_' overloadId = parts '_' fnName ++ (params.map CelfnParam.type).flatMap slugParts ∧
      AllSet (params.map CelfnParam.type) := by
  obtain ⟨slugs, hslugs, hid⟩ := bind_eq_ok_iff.mp h
  rw [← Except.ok.inj hid, parts_intercalate (List.cons_ne_nil _ _), List.flatMap_cons,
    List.append_cancel_left_eq]
  have heach := mapM_eq_ok_iff.mp hslugs
  clear h hid hslugs
  induction heach with
  | nil => exact ⟨rfl, fun _ h => absurd h List.not_mem_nil⟩
  | cons hslug _ ih =>
    obtain ⟨hparts, hset⟩ := ih
    constructor
    · rw [List.flatMap_cons, List.map_cons, List.flatMap_cons, hparts, parts_argkindSlug hslug]
    · exact List.forall_mem_cons.mpr ⟨hasUnset_of_argkindSlug hslug, hset⟩

/-- **The ids of two declarations** tell their names and types apart, unless names meet. -/
theorem synthesiseOverloadId_cases {fnName fnName' overloadId : String}
    {params params' : List CelfnParam} (h : synthesiseOverloadId fnName params = .ok overloadId)
    (h' : synthesiseOverloadId fnName' params' = .ok overloadId) :
    (fnName = fnName' ∧ params.map CelfnParam.type = params'.map CelfnParam.type) ∨
      NamesMeet fnName fnName' ∨ (fnName = fnName' ∧
        ConfusedAll (params.map CelfnParam.type) (params'.map CelfnParam.type)) := by
  obtain ⟨hparts, hset⟩ := parts_synthesiseOverloadId h
  obtain ⟨hparts', hset'⟩ := parts_synthesiseOverloadId h'
  obtain ⟨hname, hslugs⟩ | hmeet := append_slugs_cases hset hset' (hparts.symm.trans hparts')
  · have hsame := parts_injective '_' hname
    exact (flatMap_slugParts_cases hset hset' hslugs).imp (⟨hsame, ·⟩) fun hconfused =>
      .inr ⟨hsame, hconfused⟩
  · exact .inr (.inl hmeet)

/-- **The declarations of a library have ids of their own.** -/
theorem nodup_of_checkDecls {seen : List String} {decls : List CelfnDecl}
    (h : checkDecls seen decls = .ok ()) :
    (decls.map CelfnDecl.overloadId).Nodup ∧ ∀ d ∈ decls, d.overloadId ∉ seen := by
  induction decls generalizing seen with
  | nil => exact ⟨List.nodup_nil, fun _ h => absurd h List.not_mem_nil⟩
  | cons d rest ih =>
    obtain ⟨-, -, h⟩ := bind_eq_ok_iff.mp h
    dsimp only at h
    split_ifs at h with hnew
    · exact nomatch h
    obtain ⟨-, -, h⟩ := bind_eq_ok_iff.mp h
    obtain ⟨hnodup, hfresh⟩ := ih h
    constructor
    · refine List.nodup_cons.mpr ⟨fun hmem => ?_, hnodup⟩
      obtain ⟨d', hd', hsame⟩ := List.mem_map.mp hmem
      exact hfresh d' hd' (List.mem_cons.mpr (.inl hsame))
    · exact List.forall_mem_cons.mpr
        ⟨hnew, fun d' hd' hseen => hfresh d' hd' (List.mem_cons_of_mem _ hseen)⟩

/-- **Overload ids are unique**: of declarations whose names do not meet by their making, and in a
library because it is refused otherwise. -/
theorem overloadIds_unique :
    (∀ (fnName fnName' : String) (params params' : List CelfnParam) (id id' : String),
      synthesiseOverloadId fnName params = .ok id → synthesiseOverloadId fnName' params' = .ok id' →
      ¬NamesMeet fnName fnName' →
      ¬(fnName = fnName' ∧
        ConfusedAll (params.map CelfnParam.type) (params'.map CelfnParam.type)) →
      ¬(fnName = fnName' ∧ params.map CelfnParam.type = params'.map CelfnParam.type) → id ≠ id') ∧
    ∀ lib : FunctionLibrary, (lib.decls.map CelfnDecl.overloadId).Nodup := by
  refine ⟨fun fnName fnName' params params' id id' h h' hname hmessages hdiffer hid => ?_,
    fun lib => (nodup_of_checkDecls lib.accepted).1⟩
  obtain hsame | hmeet | hconfused := synthesiseOverloadId_cases (hid ▸ h) h'
  · exact hdiffer hsame
  · exact hname hmeet
  · exact hmessages hconfused

/-- Of functions of different names, and of one function of different messages. -/
theorem overloadIds_unique_names : "to_string_int" ≠ "parse_int_string" ∧
    "f_message_my_pkg_User" ≠ "f_message_my_pkg_Group_int" := by
  constructor
  · have hapart : ¬NamesMeet "to_string" "parse_int" := by
      rintro (⟨ext, ts, heq, -⟩ | ⟨ext, ts, heq, -⟩)
      · exact absurd (List.cons.inj heq).1 (by decide)
      · exact absurd (List.cons.inj heq).1 (by decide)
    exact overloadIds_unique.1 "to_string" "parse_int" [⟨false, .int, "x"⟩] [⟨false, .string, "x"⟩]
      "to_string_int" "parse_int_string" (by rfl) (by rfl) hapart (fun h => absurd h.1 (by decide))
      (fun h => absurd h.1 (by decide))
  · have huser : "my_pkg.User".replace "." "_" = "my_pkg_User" := replace_eq (by decide)
    have hgroup : "my_pkg.Group".replace "." "_" = "my_pkg_Group" := replace_eq (by decide)
    have hapart : ¬MessagesMeet "my_pkg.User" "my_pkg.Group" := by
      have hlen : (messageParts "my_pkg.User").length = (messageParts "my_pkg.Group").length := by
        decide
      rintro (hsame | ⟨ext, ts, heq, hne, -⟩ | ⟨ext, ts, heq, hne, -⟩)
      · exact absurd hsame (by decide)
      · exact hne (List.length_eq_zero_iff.mp (by simpa [hlen] using congrArg List.length heq))
      · exact hne (List.length_eq_zero_iff.mp (by simpa [hlen] using congrArg List.length heq))
    refine overloadIds_unique.1 "f" "f" [⟨false, .message "my_pkg.User", "x"⟩]
      [⟨false, .message "my_pkg.Group", "x"⟩, ⟨false, .int, "y"⟩] "f_message_my_pkg_User"
      "f_message_my_pkg_Group_int" ?_ ?_ (not_namesMeet_self _) ?_ ?_
    · change Except.ok ("_".intercalate ["f", "message_" ++ "my_pkg.User".replace "." "_"]) = _
      rw [huser]
      rfl
    · change Except.ok
        ("_".intercalate ["f", "message_" ++ "my_pkg.Group".replace "." "_", "int"]) = _
      rw [hgroup]
      rfl
    · rintro ⟨-, h⟩
      exact h.of_message.elim (by decide) hapart
    · rintro ⟨-, h⟩
      exact absurd (congrArg List.length h) (by decide)

/-- **A function `f_list` of an int and a function `f` of a list** have one id. -/
theorem overloadIds_collide :
    synthesiseOverloadId "f_list" [⟨false, .int, "x"⟩] = .ok "f_list_int" ∧
      synthesiseOverloadId "f" [⟨false, .list .int, "x"⟩] = .ok "f_list_int" := ⟨by rfl, by rfl⟩

/-! ## Names that meet do so in some ids -/

/-- **What a slug begins with can be completed** to a slug, with others behind it. -/
theorem CelType.exists_completion {t : CelType} (h : t.hasUnset = false) {ext : List (List Char)}
    (hext : ext <+: t.slugParts) : ∃ (t' : CelType) (ts' : List CelType), t'.hasUnset = false ∧
      AllSet ts' ∧ t'.slugParts = ext ++ ts'.flatMap slugParts := by
  have hint : AllSet [int] := List.forall_mem_singleton.mpr rfl
  induction t generalizing ext with
  | list element ih =>
    obtain rfl | ⟨below, rfl, hbelow⟩ := List.prefix_cons_iff.mp hext
    · exact ⟨int, [int], rfl, hint, rfl⟩
    obtain ⟨t', ts', ht', hts', heq⟩ := ih h hbelow
    exact ⟨list t', ts', ht', hts', congrArg _ heq⟩
  | optional element ih =>
    obtain rfl | ⟨below, rfl, hbelow⟩ := List.prefix_cons_iff.mp hext
    · exact ⟨int, [int], rfl, hint, rfl⟩
    obtain ⟨t', ts', ht', hts', heq⟩ := ih h hbelow
    exact ⟨optional t', ts', ht', hts', congrArg _ heq⟩
  | map key value ihKey ihValue =>
    rw [hasUnset, Bool.or_eq_false_iff] at h
    obtain rfl | ⟨below, rfl, hbelow⟩ := List.prefix_cons_iff.mp hext
    · exact ⟨int, [int], rfl, hint, rfl⟩
    obtain hkey | ⟨below', rfl, hvalue⟩ := prefix_append_cases hbelow
    · obtain ⟨t', ts', ht', hts', heq⟩ := ihKey h.1 hkey
      refine ⟨map t' int, ts' ++ [int], by simp [hasUnset, ht'], ?_, ?_⟩
      · exact List.forall_mem_append.mpr ⟨hts', hint⟩
      · simp [slugParts, heq]
    · obtain ⟨t', ts', ht', hts', heq⟩ := ihValue h.2 hvalue
      exact ⟨map key t', ts', by simp [hasUnset, h.1, ht'], hts', by simp [slugParts, heq]⟩
  | message fqn =>
    obtain rfl | ⟨below, rfl, hbelow⟩ := List.prefix_cons_iff.mp hext
    · exact ⟨int, [int], rfl, hint, rfl⟩
    by_cases hne : below = []
    · subst hne
      exact ⟨message "int", [int], rfl, hint, rfl⟩
    · obtain ⟨fqn', hfqn'⟩ := exists_messageParts_eq hne fun part hpart =>
        not_mem_of_mem_messageParts (hbelow.subset hpart)
      exact ⟨message fqn', [], rfl, nofun, by simp [slugParts, hfqn']⟩
  | unknown => exact nomatch h
  | _ =>
    obtain rfl | ⟨below, rfl, hbelow⟩ := List.prefix_cons_iff.mp hext
    · exact ⟨int, [int], rfl, hint, rfl⟩
    rw [List.prefix_nil.mp hbelow]
    exact ⟨_, [], h, nofun, rfl⟩

/-- …and what slugs begin with. -/
theorem exists_completion {ts : List CelType} (h : AllSet ts) {ext : List (List Char)}
    (hext : ext <+: ts.flatMap slugParts) : ∃ ts₁ ts₂ : List CelType, AllSet ts₁ ∧ AllSet ts₂ ∧
      ts₁.flatMap slugParts = ext ++ ts₂.flatMap slugParts := by
  induction ts generalizing ext with
  | nil => exact ⟨[], [], nofun, nofun, by rw [List.prefix_nil.mp hext]; rfl⟩
  | cons t ts ih =>
    rw [AllSet, List.forall_mem_cons] at h
    obtain hfirst | ⟨ext', rfl, hbehind⟩ := prefix_append_cases hext
    · obtain ⟨t', ts', ht', hts', heq⟩ := CelType.exists_completion h.1 hfirst
      exact ⟨[t'], ts', List.forall_mem_singleton.mpr ht', hts', by simp [heq]⟩
    · obtain ⟨ts₁, ts₂, hts₁, hts₂, heq⟩ := ih h.2 hbehind
      exact ⟨t :: ts₁, ts₂, List.forall_mem_cons.mpr ⟨h.1, hts₁⟩, hts₂, by simp [heq]⟩

/-- **A text that goes on from another is, with slugs behind it, that other with slugs behind it.** -/
theorem GoesOn.exists_append_eq {stem text : List (List Char)} (h : GoesOn stem text) :
    ∃ ts ts', AllSet ts ∧ AllSet ts' ∧
      stem ++ ts.flatMap slugParts = text ++ ts'.flatMap slugParts := by
  obtain ⟨ext, ts, rfl, -, hset, hext⟩ := h
  obtain ⟨ts₁, ts₂, hts₁, hts₂, heq⟩ := exists_completion hset hext
  exact ⟨ts₁, ts₂, hts₁, hts₂, by rw [heq, List.append_assoc]⟩

/-- Messages whose names meet have names that are the same with slugs behind them. -/
theorem MessagesMeet.exists_append_eq {fqn fqn' : String} (h : MessagesMeet fqn fqn') :
    ∃ ts ts', AllSet ts ∧ AllSet ts' ∧
      messageParts fqn ++ ts.flatMap slugParts = messageParts fqn' ++ ts'.flatMap slugParts := by
  obtain hsame | hgoes | hgoes := h
  · exact ⟨[], [], nofun, nofun, by rw [hsame]⟩
  · exact hgoes.exists_append_eq
  · obtain ⟨ts, ts', hset, hset', heq⟩ := hgoes.exists_append_eq
    exact ⟨ts', ts, hset', hset, heq.symm⟩

/-- Types that are set make an id. -/
theorem exists_synthesiseOverloadId (fnName : String) {ts : List CelType} (h : AllSet ts) :
    ∃ params id, params.map CelfnParam.type = ts ∧ synthesiseOverloadId fnName params = .ok id := by
  have hslugs : ∃ slugs, List.Forall₂ (fun (p : CelfnParam) slug => p.type.argkindSlug = .ok slug)
      (ts.map (⟨false, ·, "x"⟩)) slugs := by
    induction ts with
    | nil => exact ⟨[], .nil⟩
    | cons t ts ih =>
      rw [AllSet, List.forall_mem_cons] at h
      obtain ⟨slug, hslug⟩ := exists_argkindSlug h.1
      obtain ⟨slugs, hslugs⟩ := ih h.2
      exact ⟨slug :: slugs, .cons hslug hslugs⟩
  obtain ⟨slugs, hslugs⟩ := hslugs
  exact ⟨_, _, by simp [Function.comp_def],
    bind_eq_ok_iff.mpr ⟨slugs, mapM_eq_ok_iff.mpr hslugs, rfl⟩⟩

/-- **Names and types with the same parts make one id.** -/
theorem exists_sameId {fnName fnName' : String} {ts ts' : List CelType} (hset : AllSet ts)
    (hset' : AllSet ts') (h : parts '_' fnName ++ ts.flatMap slugParts
      = parts '_' fnName' ++ ts'.flatMap slugParts) :
    ∃ params params' id, params.map CelfnParam.type = ts ∧ params'.map CelfnParam.type = ts' ∧
      synthesiseOverloadId fnName params = .ok id ∧ synthesiseOverloadId fnName' params' = .ok id := by
  obtain ⟨params, id, rfl, hid⟩ := exists_synthesiseOverloadId fnName hset
  obtain ⟨params', id', rfl, hid'⟩ := exists_synthesiseOverloadId fnName' hset'
  have hsame : id = id' := parts_injective '_' <| by
    rw [(parts_synthesiseOverloadId hid).1, (parts_synthesiseOverloadId hid').1, h]
  exact ⟨params, params', id, rfl, rfl, hid, hsame ▸ hid'⟩

/-- **Two functions of different names have declarations of one id** if the names meet, and only
then; **and two messages stand first in the types of declarations of one id**, for one function, if
their names do. -/
theorem overloadIds_meet :
    (∀ fnName fnName' : String, fnName ≠ fnName' →
      ((∃ params params' id, synthesiseOverloadId fnName params = .ok id ∧
        synthesiseOverloadId fnName' params' = .ok id) ↔ NamesMeet fnName fnName')) ∧
    ∀ fnName fqn fqn' : String, fqn ≠ fqn' →
      ((∃ p ps p' ps' id, p.type = .message fqn ∧ p'.type = .message fqn' ∧
        synthesiseOverloadId fnName (p :: ps) = .ok id ∧
        synthesiseOverloadId fnName (p' :: ps') = .ok id) ↔ MessagesMeet fqn fqn') := by
  constructor
  · intro fnName fnName' hne
    constructor
    · rintro ⟨params, params', id, h, h'⟩
      obtain ⟨hsame, -⟩ | hmeet | ⟨hsame, -⟩ := synthesiseOverloadId_cases h h'
      · exact absurd hsame hne
      · exact hmeet
      · exact absurd hsame hne
    · rintro (hgoes | hgoes)
      · obtain ⟨ts, ts', hset, hset', heq⟩ := hgoes.exists_append_eq
        obtain ⟨params, params', id, -, -, h, h'⟩ := exists_sameId hset hset' heq
        exact ⟨params, params', id, h, h'⟩
      · obtain ⟨ts, ts', hset, hset', heq⟩ := hgoes.exists_append_eq
        obtain ⟨params, params', id, -, -, h, h'⟩ := exists_sameId hset hset' heq
        exact ⟨params', params, id, h', h⟩
  · intro fnName fqn fqn' hne
    constructor
    · rintro ⟨p, ps, p', ps', id, hp, hp', h, h'⟩
      obtain ⟨-, hsame⟩ | hmeet | ⟨-, hconfused⟩ := synthesiseOverloadId_cases h h'
      · rw [List.map_cons, List.map_cons, hp, hp'] at hsame
        exact absurd (CelType.message.inj (List.cons.inj hsame).1) hne
      · exact absurd hmeet (not_namesMeet_self fnName)
      · rw [List.map_cons, List.map_cons, hp, hp'] at hconfused
        exact hconfused.of_message.resolve_left hne
    · intro hmeet
      obtain ⟨ts, ts', hset, hset', heq⟩ := hmeet.exists_append_eq
      obtain ⟨params, params', id, htypes, htypes', h, h'⟩ :=
        @exists_sameId fnName fnName (message fqn :: ts) (message fqn' :: ts')
          (List.forall_mem_cons.mpr ⟨rfl, hset⟩) (List.forall_mem_cons.mpr ⟨rfl, hset'⟩)
          (by simp [slugParts, heq])
      obtain ⟨p, ps, rfl, hp, -⟩ := List.map_eq_cons_iff.mp htypes
      obtain ⟨p', ps', rfl, hp', -⟩ := List.map_eq_cons_iff.mp htypes'
      exact ⟨p, ps, p', ps', id, hp, hp', h, h'⟩

end CelWasm
