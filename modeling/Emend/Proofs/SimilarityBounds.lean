import Emend.Proofs.Rounding
import Emend.Similarity
import Mathlib.Algebra.BigOperators.Group.List.Lemmas
import Mathlib.Algebra.Order.BigOperators.Group.List

/-!
# Bounds on the similarity of two texts

The common blocks of two texts, one after another, are a subsequence of both (`exists_matched`), as
each block stands in both where it says (`longest_isCommon`) and the rest of it stands to the left
and to the right. So no more characters match than the shorter text has, or than the texts share in
any order, and a ratio is not above the bounds that are tried first, rounded as all three are.
-/

namespace Emend

/-- Two texts both start with what they share. -/
theorem Text.shared_prefix (a b : Text) : shared a b <+: a ∧ shared a b <+: b := by
  fun_induction shared a b with
  | case1 a s t ih =>
    exact ⟨List.cons_prefix_cons.mpr ⟨rfl, ih.1⟩, List.cons_prefix_cons.mpr ⟨rfl, ih.2⟩⟩
  | case2 => exact ⟨List.nil_prefix, List.nil_prefix⟩
  | case3 => exact ⟨List.nil_prefix, List.nil_prefix⟩

namespace Similarity

/-! ## Common blocks -/

/-- A block stands in both texts where it says. -/
def Block.IsCommon (k : Block) (a b : Text) : Prop :=
  ∃ m : Text, m.length = k.size ∧ m <+: a.drop k.left ∧ m <+: b.drop k.right

variable {a b : Text}

/-- The empty block is common to all texts. -/
theorem Block.isCommon_empty (a b : Text) : Block.IsCommon ⟨0, 0, 0⟩ a b :=
  ⟨[], rfl, List.nil_prefix, List.nil_prefix⟩

/-- What follows the first character of the end of a text is what it has from the next place on. -/
theorem eq_drop_succ {c : Char} {s : Text} {i : Nat} (h : c :: s = a.drop i) :
    s = a.drop (i + 1) := by
  rw [← List.tail_drop, ← h, List.tail_cons]

/-- A search of the second text for blocks from one place of the first finds a common one. -/
theorem bestRight_isCommon {s t : Text} {i j : Nat} {best : Block} (hs : s = a.drop i)
    (ht : t = b.drop j) (hbest : best.IsCommon a b) :
    (bestRight s i j t best).IsCommon a b := by
  induction t generalizing j best with
  | nil => exact hbest
  | cons c t ih =>
    rw [bestRight]
    refine ih (eq_drop_succ ht) ?_
    split
    · obtain ⟨hleft, hright⟩ := Text.shared_prefix s (c :: t)
      exact ⟨_, rfl, hs ▸ hleft, ht ▸ hright⟩
    · exact hbest

/-- A search of both texts for blocks finds a common one. -/
theorem bestLeft_isCommon {s : Text} {i : Nat} {best : Block} (hs : s = a.drop i)
    (hbest : best.IsCommon a b) : (bestLeft b i s best).IsCommon a b := by
  induction s generalizing i best with
  | nil => exact hbest
  | cons c s ih => exact ih (eq_drop_succ hs) (bestRight_isCommon hs rfl hbest)

/-- The longest block stands in both texts. -/
theorem longest_isCommon (a b : Text) : (longest a b).IsCommon a b :=
  bestLeft_isCommon rfl (Block.isCommon_empty a b)

/-- A common block divides both texts. -/
theorem Block.IsCommon.exists_eq {k : Block} (h : k.IsCommon a b) :
    ∃ m : Text, m.length = k.size ∧ a = a.take k.left ++ (m ++ a.drop (k.left + k.size)) ∧
      b = b.take k.right ++ (m ++ b.drop (k.right + k.size)) := by
  obtain ⟨m, hsize, hleft, hright⟩ := h
  have hdivide : ∀ {t : Text} {i : Nat}, m <+: t.drop i →
      t = t.take i ++ (m ++ t.drop (i + k.size)) := by
    intro t i hstarts
    obtain ⟨rest, hrest⟩ := hstarts
    rw [← List.drop_drop, ← hrest, ← hsize, List.drop_left, hrest, List.take_append_drop]
  exact ⟨m, hsize, hdivide hleft, hdivide hright⟩

/-! ## Matched characters -/

/-- The matched characters are those of the longest block, if there is one, and those to the left
and to the right of it. -/
theorem matched_eq (a b : Text) :
    matched a b =
      if (longest a b).size = 0 then 0
      else matched (a.take (longest a b).left) (b.take (longest a b).right) + (longest a b).size +
        matched (a.drop ((longest a b).left + (longest a b).size))
          (b.drop ((longest a b).right + (longest a b).size)) := by
  rw [matched]

/-- The matched characters are a subsequence of both texts. -/
theorem exists_matched (a b : Text) :
    ∃ m : Text, m.Sublist a ∧ m.Sublist b ∧ m.length = matched a b := by
  rw [matched_eq]
  split_ifs with hsize
  · exact ⟨[], List.nil_sublist a, List.nil_sublist b, rfl⟩
  · obtain ⟨m, hm, ha, hb⟩ := (longest_isCommon a b).exists_eq
    obtain ⟨front, hfa, hfb, hfront⟩ :=
      exists_matched (a.take (longest a b).left) (b.take (longest a b).right)
    obtain ⟨rest, hra, hrb, hrest⟩ :=
      exists_matched (a.drop ((longest a b).left + (longest a b).size))
        (b.drop ((longest a b).right + (longest a b).size))
    refine ⟨front ++ (m ++ rest), ?_, ?_, ?_⟩
    · have hall := hfa.append ((List.Sublist.refl m).append hra)
      rwa [← ha] at hall
    · have hall := hfb.append ((List.Sublist.refl m).append hrb)
      rwa [← hb] at hall
    · rw [List.length_append, List.length_append, hfront, hm, hrest]
      omega
termination_by a.length
decreasing_by
  all_goals
    have hstop := longest_stop_le a b
    simp only [List.length_take, List.length_drop]
    omega

/-- No more characters match than the shorter text has. -/
theorem matched_le_length (a b : Text) : matched a b ≤ min a.length b.length := by
  obtain ⟨m, ha, hb, hlength⟩ := exists_matched a b
  rw [← hlength]
  exact le_min ha.length_le hb.length_le

/-- A text is no longer than the counts of characters among which all of its own are. -/
theorem length_le_sum_count {m ks : Text} (h : m ⊆ ks) : m.length ≤ (ks.map m.count).sum := by
  obtain ⟨l, hperm, hsub⟩ : m.dedup.Subperm ks :=
    (List.nodup_dedup m).subperm fun c hc => h (List.mem_dedup.mp hc)
  calc m.length = (m.dedup.map m.count).sum := (List.sum_map_count_dedup_eq_length m).symm
    _ = (l.map m.count).sum := ((hperm.map m.count).sum_eq).symm
    _ ≤ (ks.map m.count).sum := (hsub.map m.count).sum_le_sum fun _ _ => Nat.zero_le _

/-- No more characters match than the texts share in any order. -/
theorem matched_le_sharedCount (a b : Text) : matched a b ≤ sharedCount a b := by
  obtain ⟨m, ha, hb, hlength⟩ := exists_matched a b
  have hall : m ⊆ a.eraseDups := fun c hc => List.mem_eraseDups.mpr (ha.subset hc)
  calc matched a b = m.length := hlength.symm
    _ ≤ (a.eraseDups.map m.count).sum := length_le_sum_count hall
    _ ≤ (a.eraseDups.map fun c => min (a.count c) (b.count c)).sum :=
        List.sum_le_sum fun c _ => le_min (ha.count_le c) (hb.count_le c)
    _ = sharedCount a b := by rw [sharedCount, List.sum_eq_foldr, List.foldr_map]

/-! ## Ratios -/

/-- More matched characters make a ratio that is as high or higher. -/
theorem score_mono {n n' : Nat} (h : n ≤ n') (total : Nat) : score n total ≤ score n' total := by
  unfold score
  split_ifs
  · exact le_rfl
  · have htwice : (2 * n : Rat) ≤ 2 * n' := by
      have hcast : (n : Rat) ≤ n' := Nat.cast_le.mpr h
      linarith
    exact nearest_mono (by positivity) (div_le_div_of_nonneg_right htwice (Nat.cast_nonneg total))

/-- The bound from the lengths is not below the ratio. -/
theorem ratio_le_lengthBound (a b : Text) : ratio a b ≤ lengthBound a b :=
  score_mono (matched_le_length a b) _

/-- The bound from the characters is not below the ratio. -/
theorem ratio_le_countBound (a b : Text) : ratio a b ≤ countBound a b :=
  score_mono (matched_le_sharedCount a b) _

end Similarity

end Emend
