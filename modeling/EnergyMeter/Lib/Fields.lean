import EnergyMeter.Lib.Table
import Mathlib.Data.List.Forall2
import Mathlib.Data.List.Infix

/-!
# Separated texts and dictionaries of fields

A text that is split at a separator, and a dictionary that is filled field by
field, the later field of a name replacing the earlier one.

* `splitOn_prefix` — a prefix of a text is split into pieces of the text, the
  last one possibly cut short.
* `splitOn_intercalate_append` — what follows joined pieces is joined to the
  last of them, up to its own first separator.
* `fill` — the dictionary; `fill_of_mem` and `fill_eq_some` say what it has
  under a name.
-/

namespace EnergyMeter.Lib

/-! ## Split texts -/

section Split

variable {α : Type*} [BEq α] [LawfulBEq α] {sep : α}

omit [LawfulBEq α] in
/-- A prefix of a text is split into the first pieces of the text and a
beginning `p` of the next piece. -/
theorem splitOn_prefix {c s : List α} (h : c <+: s) :
    ∃ pre p q post, c.splitOn sep = pre ++ [p] ∧ s.splitOn sep = pre ++ (p ++ q) :: post := by
  induction s generalizing c with
  | nil =>
    rw [List.prefix_nil] at h
    subst h
    exact ⟨[], [], [], [], by simp, by simp⟩
  | cons x s ih =>
    cases c with
    | nil =>
      -- nothing of the text: a beginning of its first piece
      obtain ⟨q, post, hEq⟩ := List.exists_cons_of_ne_nil (List.splitOn_ne_nil sep (x :: s))
      exact ⟨[], [], q, post, by simp, hEq⟩
    | cons y c =>
      obtain ⟨rfl, hTail⟩ := List.cons_prefix_cons.mp h
      obtain ⟨pre, p, q, post, hc, hs⟩ := ih hTail
      rw [List.splitOn_cons_eq_if_modifyHead, List.splitOn_cons_eq_if_modifyHead, hc, hs]
      by_cases hSep : (y == sep) = true
      · exact ⟨[] :: pre, p, q, post, by simp [hSep], by simp [hSep]⟩
      · -- the head joins the first piece, which may be the one that is cut
        cases pre with
        | nil => exact ⟨[], y :: p, q, post, by simp [hSep], by simp [hSep]⟩
        | cons a pre => exact ⟨(y :: a) :: pre, p, q, post, by simp [hSep], by simp [hSep]⟩

theorem splitOn_append_of_not_mem {l t hd : List α} {tl : List (List α)} (hl : sep ∉ l)
    (ht : t.splitOn sep = hd :: tl) : (l ++ t).splitOn sep = (l ++ hd) :: tl := by
  induction l with
  | nil => exact ht
  | cons x l ih =>
    rw [List.mem_cons, not_or] at hl
    -- the first letter is no separator, so it stays in the first piece
    have hSep : (x == sep) = false := beq_false_of_ne (Ne.symm hl.1)
    rw [List.cons_append, List.splitOn_cons_eq_if_modifyHead, hSep, ih hl.2]
    rfl

theorem splitOn_intercalate_append {init : List (List α)} {last t hd : List α}
    {tl : List (List α)} (hInit : ∀ l ∈ init, sep ∉ l) (hLast : sep ∉ last)
    (ht : t.splitOn sep = hd :: tl) :
    ([sep].intercalate (init ++ [last]) ++ t).splitOn sep = init ++ (last ++ hd) :: tl := by
  induction init with
  | nil =>
    rw [List.nil_append, List.intercalate_singleton]
    exact splitOn_append_of_not_mem hLast ht
  | cons l init ih =>
    -- the first joined piece ends at the first separator of the text
    obtain ⟨hl, hInit⟩ := List.forall_mem_cons.mp hInit
    obtain ⟨l', rest, hRest⟩ := List.exists_cons_of_ne_nil
      (List.append_ne_nil_of_right_ne_nil init (List.cons_ne_nil last []))
    rw [List.cons_append, hRest, List.intercalate_cons_cons, ← hRest, List.append_assoc,
      List.append_assoc, List.singleton_append, List.splitOn_append_cons_self_of_not_mem hl,
      ih hInit]
    rfl

end Split

/-! ## Dictionaries -/

section Fill

variable {β γ : Type*} [DecidableEq β]

/-- The dictionary `d` after the fields of `fs`, in order. -/
def fill (d : β → Option γ) (fs : List (β × γ)) : β → Option γ :=
  fs.foldl (fun d f => Function.update d f.1 (some f.2)) d

theorem fill_eq_storeAll (d : β → Option γ) (fs : List (β × γ)) :
    fill d fs = storeAll d (fs.map fun f => (f.1, some f.2)) := by
  rw [fill, storeAll, List.foldl_map]

theorem fill_of_not_mem {d : β → Option γ} {fs : List (β × γ)} {b : β}
    (h : b ∉ fs.map Prod.fst) : fill d fs b = d b := by
  rw [fill_eq_storeAll]
  refine storeAll_of_not_mem ?_
  rwa [List.map_map]

theorem fill_of_mem {d : β → Option γ} {fs : List (β × γ)} {b : β} {v : γ}
    (hNodup : (fs.map Prod.fst).Nodup) (h : (b, v) ∈ fs) : fill d fs b = some v := by
  rw [fill_eq_storeAll]
  refine storeAll_of_mem ?_ (List.mem_map.mpr ⟨(b, v), h, rfl⟩)
  rwa [List.map_map]

/-- What the dictionary has under a name was there before or is a field. -/
theorem fill_eq_some {d : β → Option γ} {fs : List (β × γ)} {b : β} {v : γ}
    (h : fill d fs b = some v) : d b = some v ∨ (b, v) ∈ fs := by
  induction fs generalizing d with
  | nil => exact .inl h
  | cons f fs ih =>
    rcases ih (d := Function.update d f.1 (some f.2)) h with hd | hMem
    -- what the rest of the fields left alone is the first field or was there before
    · by_cases hb : b = f.1
      · subst hb
        rw [Function.update_self] at hd
        exact .inr (List.mem_cons.mpr (.inl (Prod.ext rfl (Option.some.inj hd).symm)))
      · rw [Function.update_of_ne hb] at hd
        exact .inl hd
    · exact .inr (List.mem_cons_of_mem _ hMem)

end Fill

section Lookup

variable {β γ : Type*}

/-- Looking up a list of names. -/
theorem mapM_eq_some_iff {d : β → Option γ} {bs : List β} {vs : List γ} :
    bs.mapM d = some vs ↔ List.Forall₂ (fun b v => d b = some v) bs vs := by
  induction bs generalizing vs with
  | nil =>
    rw [List.mapM_nil, List.forall₂_nil_left_iff]
    exact ⟨fun h => (Option.some.inj h).symm, fun h => congrArg some h.symm⟩
  | cons b bs ih =>
    -- the first name is found, and then the others are
    rw [List.mapM_cons, List.forall₂_cons_left_iff]
    constructor
    · intro h
      obtain ⟨v, hv, h⟩ := Option.bind_eq_some_iff.mp h
      obtain ⟨rest, hRest, h⟩ := Option.bind_eq_some_iff.mp h
      exact ⟨v, rest, hv, ih.mp hRest, (Option.some.inj h).symm⟩
    · rintro ⟨v, rest, hv, hRest, rfl⟩
      rw [hv, ih.mpr hRest]
      rfl

/-- Partners for all, one by one. -/
theorem exists_forall₂_iff {r : β → γ → Prop} {bs : List β} :
    (∃ vs, List.Forall₂ r bs vs) ↔ ∀ b ∈ bs, ∃ v, r b v := by
  induction bs with
  | nil => exact ⟨fun _ => nofun, fun _ => ⟨[], .nil⟩⟩
  | cons b bs ih =>
    rw [List.forall_mem_cons, ← ih]
    constructor
    · rintro ⟨_, hAll⟩
      obtain ⟨v, vs, hv, hRest, -⟩ := List.forall₂_cons_left_iff.mp hAll
      exact ⟨⟨v, hv⟩, vs, hRest⟩
    · rintro ⟨⟨v, hv⟩, vs, hRest⟩
      exact ⟨v :: vs, .cons hv hRest⟩

/-- Every value found is the value of a name. -/
theorem exists_of_mem_mapM {d : β → Option γ} {bs : List β} {vs : List γ}
    (h : bs.mapM d = some vs) {v : γ} (hv : v ∈ vs) : ∃ b, d b = some v := by
  have hForall := mapM_eq_some_iff.mp h
  clear h
  induction hForall with
  | nil => cases hv
  | cons hb _ ih =>
    rcases List.mem_cons.mp hv with rfl | hv
    · exact ⟨_, hb⟩
    · exact ih hv

/-- The names of a list of fields have the values of the fields. -/
theorem forall₂_fields_iff {d : β → Option γ} {fs : List (β × γ)} :
    List.Forall₂ (fun b v => d b = some v) (fs.map Prod.fst) (fs.map Prod.snd) ↔
      ∀ f ∈ fs, d f.1 = some f.2 := by
  rw [List.forall₂_map_left_iff, List.forall₂_map_right_iff, List.forall₂_same]

end Lookup

end EnergyMeter.Lib
