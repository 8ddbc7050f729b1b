import CelWasm.Library.KeyedTree
import CelWasm.Library.Pieces
import CelWasm.Library.SortedTable
import Mathlib.Algebra.Order.Group.Nat

/-!
# Library/TreeText — trees written as texts, maps by way of a table

    {b: …, a: …}  ──▸  table keyed by the texts of the keys  ──▸  {a: …, b: …}

A list is written element by element, a map from a table that is keyed by the texts of its keys. The
text has one item for each entry, at any depth, exactly if in no map on the way two keys have one text
(`written_text_iff`): an entry that the table loses leaves the text too short. Then the order of the
entries is not seen (`text_eq_of_matches`).
-/

namespace CelWasm

/-- How trees are written. -/
structure TreeNotation (σ κ α : Type) where
  leaf : σ → List α
  key : κ → List α
  listOpen : List α
  listClose : List α
  mapOpen : List α
  mapClose : List α
  separator : List α
  colon : List α
  colon_pos : 0 < colon.length

namespace KeyedTree

variable {σ κ α : Type}

section Text

variable (n : TreeNotation σ κ α)

/-- A list of texts. -/
def listText (texts : List (List α)) : List α := n.listOpen ++ n.separator.intercalate texts ++ n.listClose

/-- A map of items. -/
def mapText (items : List (List α)) : List α := n.mapOpen ++ n.separator.intercalate items ++ n.mapClose

/-- An item, from the texts of a key and a value. -/
def itemText (row : List α × List α) : List α := row.1 ++ n.colon ++ row.2

/-- **The text of a tree.** -/
def text [LinearOrder (List α)] : KeyedTree σ κ → List α
  | scalar s => n.leaf s
  | list children => listText n (children.map fun x => x.text)
  | map entries =>
    mapText n ((SortedTable.ofEntries (entries.map fun e => (n.key e.1, e.2.text))).map (itemText n))
termination_by t => sizeOf t
decreasing_by
  · exact sizeOf_lt_of_mem_children ‹_›
  · exact sizeOf_lt_of_mem_entries ‹_›

/-- **A text writes a tree whole**: a list element by element, a map with one item for each entry, in
some order. -/
inductive Written : KeyedTree σ κ → List α → Prop
  | scalar (s : σ) : Written (scalar s) (n.leaf s)
  | list {rows : List (KeyedTree σ κ × List α)} (h : ∀ r ∈ rows, Written r.1 r.2) :
    Written (list (rows.map Prod.fst)) (listText n (rows.map Prod.snd))
  | map {rows : List ((κ × KeyedTree σ κ) × List α)} {ordered : List (List α)}
    (h : ∀ r ∈ rows, Written r.1.2 r.2)
    (hperm : ordered.Perm (rows.map fun r => itemText n (n.key r.1.1, r.2))) :
    Written (map (rows.map Prod.fst)) (mapText n ordered)

/-- In no map on the way two keys have one text. -/
def KeysApart : KeyedTree σ κ → Prop
  | scalar _ => True
  | list children => ∀ x ∈ children, x.KeysApart
  | map entries => (entries.map fun e => n.key e.1).Nodup ∧ ∀ e ∈ entries, e.2.KeysApart
termination_by t => sizeOf t
decreasing_by
  · exact sizeOf_lt_of_mem_children ‹_›
  · exact sizeOf_lt_of_mem_entries ‹_›

/-- How long a text that writes a tree whole is. -/
def fullLength : KeyedTree σ κ → ℕ
  | scalar s => (n.leaf s).length
  | list children => n.listOpen.length + n.listClose.length
      + ((children.map fun x => x.fullLength + n.separator.length).sum - n.separator.length)
  | map entries => n.mapOpen.length + n.mapClose.length
      + ((entries.map fun e => (n.key e.1).length + n.colon.length + e.2.fullLength
          + n.separator.length).sum - n.separator.length)
termination_by t => sizeOf t
decreasing_by
  · exact sizeOf_lt_of_mem_children ‹_›
  · exact sizeOf_lt_of_mem_entries ‹_›

end Text

/-! ## Lengths -/

section Length

variable {n : TreeNotation σ κ α}

theorem length_intercalate (sep : List α) (texts : List (List α)) :
    (sep.intercalate texts).length
      = (texts.map fun t => t.length + sep.length).sum - sep.length := by
  obtain rfl | ⟨front, last, rfl⟩ := texts.eq_nil_or_concat
  · simp [List.intercalate]
  · rw [List.concat_eq_append, intercalate_append_singleton, List.length_append,
      List.length_flatten, List.map_map, List.map_append, List.sum_append, List.map_singleton,
      List.sum_singleton]
    simp only [Function.comp_def, List.length_append]
    omega

theorem length_listText (texts : List (List α)) : (listText n texts).length
    = n.listOpen.length + n.listClose.length
      + ((texts.map fun t => t.length + n.separator.length).sum - n.separator.length) := by
  rw [listText, List.length_append, List.length_append, length_intercalate]
  omega

theorem length_mapText (items : List (List α)) : (mapText n items).length
    = n.mapOpen.length + n.mapClose.length
      + ((items.map fun t => t.length + n.separator.length).sum - n.separator.length) := by
  rw [mapText, List.length_append, List.length_append, length_intercalate]
  omega

theorem length_itemText (row : List α × List α) :
    (itemText n row).length = row.1.length + n.colon.length + row.2.length := by
  rw [itemText, List.length_append, List.length_append]

/-- **Every text that writes a tree whole is as long.** -/
theorem Written.length_eq {t : KeyedTree σ κ} {s : List α} (h : t.Written n s) :
    s.length = t.fullLength n := by
  induction h with
  | scalar s => rw [fullLength]
  | @list rows _ ih =>
    rw [length_listText, fullLength, List.map_map, List.map_map]
    have hrows : rows.map ((fun t => t.length + n.separator.length) ∘ Prod.snd)
        = rows.map ((fun x => x.fullLength n + n.separator.length) ∘ Prod.fst) :=
      List.map_congr_left fun r hr => congrArg (· + n.separator.length) (ih r hr)
    rw [hrows]
  | @map rows ordered _ hperm ih =>
    rw [length_mapText, fullLength, (hperm.map _).sum_eq, List.map_map, List.map_map]
    have hrows : rows.map ((fun t => t.length + n.separator.length) ∘
          fun r => itemText n (n.key r.1.1, r.2))
        = rows.map ((fun e => (n.key e.1).length + n.colon.length + e.2.fullLength n
            + n.separator.length) ∘ Prod.fst) :=
      List.map_congr_left fun r hr => by
        simp only [Function.comp_def, length_itemText, ih r hr]
    rw [hrows]

/-- What a row takes of a text. -/
def rowWeight (n : TreeNotation σ κ α) (row : List α × List α) : ℕ :=
  row.1.length + n.colon.length + row.2.length + n.separator.length

theorem rowWeight_pos (n : TreeNotation σ κ α) (row : List α × List α) : 0 < rowWeight n row := by
  have hcolon := n.colon_pos
  rw [rowWeight]
  omega

theorem sum_items (rows : List (List α × List α)) :
    ((rows.map (itemText n)).map fun t => t.length + n.separator.length).sum
      = SortedTable.weightOf (rowWeight n) rows := by
  rw [SortedTable.weightOf, List.map_map]
  simp only [Function.comp_def, length_itemText]
  rfl

/-- Sums of terms that are no longer, and of as many separators. -/
theorem sum_sub_le {β : Type} {l : List β} {f g : β → ℕ} (sep : ℕ) (h : ∀ x ∈ l, f x ≤ g x) :
    (l.map fun x => f x + sep).sum - sep ≤ (l.map fun x => g x + sep).sum - sep ∧
      ((l.map fun x => f x + sep).sum - sep = (l.map fun x => g x + sep).sum - sep →
        ∀ x ∈ l, f x = g x) := by
  have hle : ∀ x ∈ l, f x + sep ≤ g x + sep := fun x hx => Nat.add_le_add_right (h x hx) sep
  refine ⟨Nat.sub_le_sub_right (List.sum_le_sum hle) sep, fun heq x hx => ?_⟩
  refine (h x hx).antisymm (not_lt.mp fun hlt => ?_)
  have hsum := List.sum_lt_sum _ _ hle ⟨x, hx, Nat.add_lt_add_right hlt sep⟩
  have hterm : f x + sep ≤ (l.map fun x => f x + sep).sum :=
    List.single_le_sum (fun _ _ => Nat.zero_le _) _ (List.mem_map_of_mem hx)
  omega

end Length

/-! ## The text by way of tables -/

section Table

variable [LinearOrder (List α)] {n : TreeNotation σ κ α}

/-- The rows that a map's table is made of. -/
def rowsOf (n : TreeNotation σ κ α) (entries : List (κ × KeyedTree σ κ)) : List (List α × List α) :=
  entries.map fun e => (n.key e.1, e.2.text n)

theorem keys_rowsOf (entries : List (κ × KeyedTree σ κ)) :
    (rowsOf n entries).map Prod.fst = entries.map fun e => n.key e.1 := List.map_map

theorem text_map (entries : List (κ × KeyedTree σ κ)) : (map entries).text n
    = mapText n ((SortedTable.ofEntries (rowsOf n entries)).map (itemText n)) := by
  rw [text]
  rfl

theorem weightOf_rowsOf (entries : List (κ × KeyedTree σ κ)) :
    SortedTable.weightOf (rowWeight n) (rowsOf n entries)
      = (entries.map fun e => (n.key e.1).length + n.colon.length + (e.2.text n).length
          + n.separator.length).sum := by
  rw [SortedTable.weightOf, rowsOf, List.map_map]
  rfl

/-- **With keys apart the text writes the tree whole.** -/
theorem written_of_keysApart : ∀ {t : KeyedTree σ κ}, t.KeysApart n → t.Written n (t.text n)
  | scalar s, _ => by
    rw [text]
    exact .scalar s
  | list children, h => by
    rw [KeysApart] at h
    rw [text]
    have hrows := @Written.list σ κ α n (children.map fun x => (x, x.text n)) fun r hr => by
      obtain ⟨x, hx, rfl⟩ := List.mem_map.mp hr
      exact written_of_keysApart (h x hx)
    simpa only [List.map_map, Function.comp_def, List.map_id'] using hrows
  | map entries, h => by
    rw [KeysApart] at h
    rw [text_map]
    have hkeys : ((rowsOf n entries).map Prod.fst).Nodup := by
      rw [keys_rowsOf]
      exact h.1
    have hperm := SortedTable.perm_ofEntries hkeys
    have hrows := @Written.map σ κ α n (entries.map fun e => (e, e.2.text n)) _ (fun r hr => by
      obtain ⟨e, he, rfl⟩ := List.mem_map.mp hr
      exact written_of_keysApart (h.2 e he)) (by
        simpa only [List.map_map, Function.comp_def, rowsOf] using hperm.map (itemText n))
    simpa only [List.map_map, Function.comp_def, List.map_id', rowsOf] using hrows
termination_by t => sizeOf t
decreasing_by
  · exact sizeOf_lt_of_mem_children hx
  · exact sizeOf_lt_of_mem_entries he

/-- **A text is no longer than one that writes the tree whole**, and as long only with keys apart. -/
theorem length_text_le : ∀ t : KeyedTree σ κ, (t.text n).length ≤ t.fullLength n ∧
    ((t.text n).length = t.fullLength n → t.KeysApart n)
  | scalar s => by
    rw [text, fullLength, KeysApart]
    exact ⟨le_rfl, fun _ => trivial⟩
  | list children => by
    have hchild : ∀ x ∈ children, (x.text n).length ≤ x.fullLength n ∧
        ((x.text n).length = x.fullLength n → x.KeysApart n) := fun x hx => length_text_le x
    obtain ⟨hle, heq⟩ := sum_sub_le n.separator.length fun x hx => (hchild x hx).1
    rw [text, length_listText, fullLength, KeysApart, List.map_map]
    exact ⟨Nat.add_le_add_left hle _, fun h x hx => (hchild x hx).2 (heq (Nat.add_left_cancel h) x hx)⟩
  | map entries => by
    have hvalue : ∀ e ∈ entries, (e.2.text n).length ≤ e.2.fullLength n ∧
        ((e.2.text n).length = e.2.fullLength n → e.2.KeysApart n) := fun e he => length_text_le e.2
    have hitem : ∀ e ∈ entries, (n.key e.1).length + n.colon.length + (e.2.text n).length
        ≤ (n.key e.1).length + n.colon.length + e.2.fullLength n :=
      fun e he => Nat.add_le_add_left (hvalue e he).1 _
    obtain ⟨hle, heq⟩ := sum_sub_le n.separator.length hitem
    have htable := @SortedTable.weightOf_ofEntries_le _ _ _ (rowsOf n entries) (rowWeight n)
    have hrows := @weightOf_rowsOf σ κ α _ n entries
    rw [text_map, length_mapText, fullLength, KeysApart, sum_items]
    refine ⟨Nat.add_le_add_left ((Nat.sub_le_sub_right (htable.trans hrows.le) _).trans hle) _,
      fun h => ?_⟩
    by_cases hnil : entries = []
    · subst hnil
      exact ⟨.nil, nofun⟩
    -- one item alone is longer than a separator, so that the sums are the same before it is taken off
    obtain ⟨e, he⟩ := List.exists_mem_of_ne_nil entries hnil
    have hlong := List.single_le_sum (fun _ _ => Nat.zero_le _) _ (List.mem_map_of_mem (f := fun e =>
      (n.key e.1).length + n.colon.length + e.2.fullLength n + n.separator.length) he)
    have hcolon := n.colon_pos
    have hkeys := SortedTable.nodup_of_weightOf_ofEntries (rowWeight_pos n)
      (htable.antisymm (by omega))
    rw [keys_rowsOf] at hkeys
    refine ⟨hkeys, fun e he => (hvalue e he).2 (Nat.add_left_cancel (heq ?_ e he))⟩
    omega
termination_by t => sizeOf t
decreasing_by
  · exact sizeOf_lt_of_mem_children hx
  · exact sizeOf_lt_of_mem_entries he

/-- **The text writes a tree whole exactly with keys apart.** -/
theorem written_text_iff {t : KeyedTree σ κ} : t.Written n (t.text n) ↔ t.KeysApart n :=
  ⟨fun h => (length_text_le t).2 h.length_eq, written_of_keysApart⟩

/-- Related elements of one image. -/
theorem map_eq_map_of_forall₂ {β γ : Type} {R : β → β → Prop} {f : β → γ} {xs ys : List β}
    (h : List.Forall₂ R xs ys) (hf : ∀ x ∈ xs, ∀ y, R x y → f x = f y) : xs.map f = ys.map f := by
  induction h with
  | nil => rfl
  | @cons x y xs ys hxy _ ih =>
    rw [List.forall_mem_cons] at hf
    rw [List.map_cons, List.map_cons, hf.1 y hxy, ih hf.2]

/-- **With keys apart the order of the entries is not seen.** -/
theorem text_eq_of_matches : ∀ {t t' : KeyedTree σ κ}, t.KeysApart n → t.Matches (· = ·) t' →
    t.text n = t'.text n
  | scalar s, scalar s', _, h => by rw [scalar_matches_scalar.mp h]
  | list xs, list ys, hapart, h => by
    rw [KeysApart] at hapart
    rw [list_matches_list] at h
    have htexts := map_eq_map_of_forall₂ h fun x hx y hxy => text_eq_of_matches (hapart x hx) hxy
    rw [text, text, htexts]
  | map xs, map ys, hapart, h => by
    rw [KeysApart] at hapart
    rw [map_matches_map] at h
    have hkeys : ((rowsOf n xs).map Prod.fst).Nodup := by
      rw [keys_rowsOf]
      exact hapart.1
    have hsub : rowsOf n xs ⊆ rowsOf n ys := by
      intro row hrow
      obtain ⟨e, he, rfl⟩ := List.mem_map.mp hrow
      obtain ⟨f, hf, hfe, hmatch⟩ := h.2 e he
      refine List.mem_map.mpr ⟨f, hf, ?_⟩
      rw [hfe, text_eq_of_matches (hapart.2 e he) hmatch]
    have hperm : (rowsOf n xs).Perm (rowsOf n ys) :=
      (hkeys.of_map.subperm hsub).perm_of_length_le (by simp [rowsOf, h.1])
    rw [text_map, text_map, SortedTable.ofEntries_eq_of_perm hkeys hperm]
  | scalar _, list _, _, h | scalar _, map _, _, h | list _, scalar _, _, h
  | list _, map _, _, h | map _, scalar _, _, h | map _, list _, _, h => h.elim
termination_by t => sizeOf t
decreasing_by
  · exact sizeOf_lt_of_mem_children hx
  · exact sizeOf_lt_of_mem_entries he

end Table

end KeyedTree

end CelWasm
