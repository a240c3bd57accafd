import Mathlib
import StatsDaemon.Tags

namespace StatsDaemon.Tags

variable {tags others : Tags}

theorem eq_of_mem_iff (h : ∀ tag, tag ∈ tags.items ↔ tag ∈ others.items) : tags = others := by
  have hitems : tags.items = others.items :=
    tags.increasing.eq_of_mem_iff others.increasing h
  obtain ⟨items, hincreasing⟩ := tags
  obtain ⟨more, hmore⟩ := others
  cases hitems
  rfl

theorem extend_nil (tags : Tags) : tags.extend [] = tags :=
  eq_of_mem_iff fun _ => mem_extend.trans (or_iff_right List.not_mem_nil)

theorem empty_extend_items (tags : Tags) : empty.extend tags.items = tags :=
  eq_of_mem_iff fun _ => mem_extend.trans (or_iff_left List.not_mem_nil)

theorem extend_ofList (tags : Tags) (items : List String) :
    tags.extend (ofList items).items = tags.extend items :=
  eq_of_mem_iff fun _ => by
    rw [mem_extend, mem_extend, ofList, mem_extend, empty, or_iff_left List.not_mem_nil]

theorem hasKey_iff {key : String} :
    tags.hasKey key = true ↔ ∃ tag ∈ tags.items, keyOf tag = key := by
  simp only [hasKey, List.any_eq_true, beq_iff_eq]

end StatsDaemon.Tags
