import Emend.Proofs.CandidatePlaces

/-!
# The order of windows

There is a window at each line of a document from which on there are enough lines
(`windows_eq_map_range`, `mem_windows_iff`), and windows stand one after another
(`pairwise_windows`).
-/

namespace Emend

namespace Match

/-! ## Windows at the lines of a document -/

/-- The window of `size` lines from the line with number `i` on, where lines are counted from
zero. -/
def windowAt (size : Nat) (ls : List Text) (i : Nat) : Window :=
  ⟨Text.extent (ls.take i), (ls.drop i).take size⟩

/-- There is a window at each of the lines from which on there are enough of them. -/
theorem windowsFrom_eq_map_range {size : Nat} (hsize : 0 < size) (start : Nat) (ls : List Text) :
    windowsFrom size start ls = (List.range (ls.length + 1 - size)).map fun i =>
      ⟨start + Text.extent (ls.take i), (ls.drop i).take size⟩ := by
  induction ls generalizing start with
  | nil =>
    have hnone : 0 + 1 - size = 0 := by omega
    rw [List.length_nil, hnone]
    rfl
  | cons l ls ih =>
    rw [windowsFrom, List.length_take, List.length_cons]
    split_ifs with hfew
    · have hnone : ls.length + 1 + 1 - size = 0 := by omega
      rw [hnone]
      rfl
    · -- The windows after the first one are those of the lines after the first one.
      have hmore : ls.length + 1 + 1 - size = (ls.length + 1 - size) + 1 := by omega
      rw [hmore, List.range_succ_eq_map, List.map_cons, List.map_map, ih]
      refine congrArg _ (List.map_congr_left fun i _ => ?_)
      have hextent : Text.extent ((l :: ls).take (i + 1)) =
          l.length + 1 + Text.extent (ls.take i) := rfl
      show _ = Window.mk (start + Text.extent ((l :: ls).take (i + 1))) _
      rw [hextent, ← Nat.add_assoc, Nat.add_assoc start]
      rfl

/-- There is a window at each of the lines of a document from which on there are enough of them. -/
theorem windows_eq_map_range {size : Nat} (hsize : 0 < size) (content : Text) :
    windows size content = (List.range (content.bodyLines.length + 1 - size)).map
      (windowAt size content.bodyLines) := by
  rw [windows, windowsFrom_eq_map_range hsize]
  refine List.map_congr_left fun i _ => ?_
  rw [Nat.zero_add]
  rfl

/-- Windows stand one after another. -/
theorem pairwise_windowsFrom (size start : Nat) (ls : List Text) :
    (windowsFrom size start ls).Pairwise (·.start < ·.start) := by
  induction ls generalizing start with
  | nil => exact .nil
  | cons l ls ih =>
    rw [windowsFrom]
    split
    · exact .nil
    · refine .cons (fun w hw => ?_) (ih _)
      obtain ⟨before, after, -, -, -, rfl⟩ := exists_of_mem_windowsFrom hw
      show start < start + l.length + 1 + Text.extent before
      omega

/-- The windows of a document stand one after another. -/
theorem pairwise_windows (size : Nat) (content : Text) :
    (windows size content).Pairwise (·.start < ·.start) :=
  pairwise_windowsFrom size 0 _

/-- The windows of a document are those at its lines. -/
theorem mem_windows_iff {size : Nat} (hsize : 0 < size) {content : Text} {w : Window} :
    w ∈ windows size content ↔
      ∃ i, i + size ≤ content.bodyLines.length ∧ windowAt size content.bodyLines i = w := by
  rw [windows_eq_map_range hsize, List.mem_map]
  refine exists_congr fun i => and_congr_left' ?_
  rw [List.mem_range]
  omega

/-- Lines of a document are those of a window. -/
theorem mem_windows {content : Text} {before found after : List Text}
    (hlines : content.bodyLines = before ++ (found ++ after)) (hfound : found ≠ []) :
    ⟨Text.extent before, found⟩ ∈ windows found.length content := by
  refine (mem_windows_iff (List.length_pos_iff.mpr hfound)).mpr ⟨before.length, ?_, ?_⟩
  · rw [hlines, List.length_append, List.length_append]
    omega
  · rw [hlines, windowAt, List.take_left, List.drop_left, List.take_left]

end Match

end Emend
