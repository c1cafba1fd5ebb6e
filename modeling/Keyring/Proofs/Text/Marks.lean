import Mathlib.Data.List.Basic

/-!
# Texts with marks between their parts

Where a mark ends a part of a text and does not occur within it, the text tells the part. So a list
of texts, each with a mark at its end and nowhere else, is told by the text that joins them.
-/
namespace Keyring.Text

theorem append_cons_inj {α : Type*} {mark : α} {s t u v : List α} (hs : mark ∉ s) (ht : mark ∉ t) :
    s ++ mark :: u = t ++ mark :: v ↔ s = t ∧ u = v := by
  constructor
  · intro h
    -- The first mark ends both parts, so neither can go on where the other stops.
    induction s generalizing t with
    | nil =>
      cases t with
      | nil => exact ⟨rfl, (List.cons.inj h).2⟩
      | cons c t => exact absurd (List.mem_cons.2 (.inl (List.cons.inj h).1)) ht
    | cons c s ih =>
      cases t with
      | nil => exact absurd (List.mem_cons.2 (.inl (List.cons.inj h).1.symm)) hs
      | cons d t =>
        obtain ⟨rfl, hrest⟩ := List.cons.inj h
        obtain ⟨rfl, huv⟩ := ih (fun hmem => hs (List.mem_cons_of_mem c hmem))
          (fun hmem => ht (List.mem_cons_of_mem c hmem)) hrest
        exact ⟨rfl, huv⟩
  · rintro ⟨rfl, rfl⟩
    rfl

/-- Where a separator begins with a mark, two texts agree if they do before and after it. -/
theorem append_separator_inj {mark : Char} {s t u v : String} (separator : String)
    (hmark : separator.toList.head? = some mark) (hs : mark ∉ s.toList) (ht : mark ∉ t.toList) :
    s ++ (separator ++ u) = t ++ (separator ++ v) ↔ s = t ∧ u = v := by
  obtain ⟨rest, hrest⟩ := List.head?_eq_some_iff.1 hmark
  rw [← String.toList_inj, String.toList_append, String.toList_append, String.toList_append,
    String.toList_append, hrest, List.cons_append, List.cons_append, append_cons_inj hs ht,
    List.append_cancel_left_eq, String.toList_inj, String.toList_inj]

/-- A text with a mark at its end and nowhere else. -/
def EndsAt (mark : Char) (text : String) : Prop :=
  ∃ part : String, mark ∉ part.toList ∧ text = part ++ String.singleton mark

namespace EndsAt

variable {mark : Char} {s t u v : String}

theorem append_left (hs : mark ∉ s.toList) (ht : EndsAt mark t) : EndsAt mark (s ++ t) := by
  obtain ⟨part, hpart, rfl⟩ := ht
  refine ⟨s ++ part, ?_, String.append_assoc.symm⟩
  rw [String.toList_append]
  exact List.not_mem_append hs hpart

theorem ne_empty (h : EndsAt mark s) : s ≠ "" := by
  obtain ⟨part, -, rfl⟩ := h
  intro hempty
  have hlength := congrArg String.length hempty
  simp at hlength

theorem append_inj (hs : EndsAt mark s) (ht : EndsAt mark t) : s ++ u = t ++ v ↔ s = t ∧ u = v := by
  obtain ⟨part, hpart, rfl⟩ := hs
  obtain ⟨part', hpart', rfl⟩ := ht
  rw [String.append_assoc, String.append_assoc,
    append_separator_inj (String.singleton mark) (by simp) hpart hpart', String.append_left_inj]

end EndsAt

variable {mark : Char} {separator : String} {l m : List String}

theorem intercalate_cons (separator text : String) (l : List String) :
    separator.intercalate (text :: l) = text ++ String.join (l.map (separator ++ ·)) := by
  induction l generalizing text with
  | nil => simp
  | cons next l ih => simp [ih, String.append_assoc]

theorem join_separated_inj (hl : ∀ text ∈ l, EndsAt mark text) (hm : ∀ text ∈ m, EndsAt mark text) :
    String.join (l.map (separator ++ ·)) = String.join (m.map (separator ++ ·)) ↔ l = m := by
  induction l generalizing m with
  | nil =>
    cases m with
    | nil => simp
    | cons next m =>
      have hne := (hm next List.mem_cons_self).ne_empty
      simp [hne]
  | cons text l ih =>
    obtain ⟨htext, hl⟩ := List.forall_mem_cons.1 hl
    cases m with
    | nil => simp [htext.ne_empty]
    | cons next m =>
      obtain ⟨hnext, hm⟩ := List.forall_mem_cons.1 hm
      rw [List.map_cons, List.map_cons, String.join_cons, String.join_cons, String.append_assoc,
        String.append_assoc, String.append_right_inj, htext.append_inj hnext, ih hl hm,
        List.cons.injEq]

/-- Texts that end at a mark are told by the text that lists them. -/
theorem intercalate_inj (hl : ∀ text ∈ l, EndsAt mark text) (hm : ∀ text ∈ m, EndsAt mark text) :
    separator.intercalate l = separator.intercalate m ↔ l = m := by
  cases l with
  | nil =>
    cases m with
    | nil => simp
    | cons next m =>
      have hne := (hm next List.mem_cons_self).ne_empty
      simp [intercalate_cons, hne]
  | cons text l =>
    obtain ⟨htext, hl⟩ := List.forall_mem_cons.1 hl
    cases m with
    | nil => simp [intercalate_cons, htext.ne_empty]
    | cons next m =>
      obtain ⟨hnext, hm⟩ := List.forall_mem_cons.1 hm
      rw [intercalate_cons, intercalate_cons, htext.append_inj hnext, join_separated_inj hl hm,
        List.cons.injEq]

end Keyring.Text
