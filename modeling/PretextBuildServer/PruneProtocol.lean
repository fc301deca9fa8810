import PretextBuildServer.HarvestRuns

/-!
# What a prune calls
-/

namespace PretextBuildServer.PruneProtocol

open EffectProgram EffectProgram.Program PosixDisk
open PretextBuildServer.ServerSettings PretextBuildServer.JobCalls
open PretextBuildServer.DiskCalls PretextBuildServer.AssetCache PretextBuildServer.HarvestRuns

set_option autoImplicit false

def pruneCall : DiskCall → Prop
  | .isDir _ | .isLink _ | .scandir _ | .fileSize _ | .time | .remove _ | .rmdir _ => True
  | _ => False

/-- What a call takes away. -/
def removal : DiskCall → Option Path
  | .remove path | .rmdir path => some path
  | _ => none

theorem ignoring_makes_only {allowed : DiskCall → Prop} {program : DiskProgram Unit}
    (only : MakesOnly allowed program) : MakesOnly allowed (ignoringOSError program) := by
  apply makes_only_and_then _ _ only
  rintro (raised | value)
  · rw [on_failure_error]
    split <;> trivial
  · trivial

/-- The calls that clear a directory: they take away what is in it. -/
def inside (dir : Path) : DiskCall → Prop
  | .scandir path => dir <+: path
  | .remove path | .rmdir path => dir <+: path ∧ path ≠ dir
  | _ => False

theorem child_inside {dir path : Path} (within : dir <+: path) (name : String) :
    dir <+: path ++ [name] ∧ path ++ [name] ≠ dir := by
  refine ⟨within.trans (List.prefix_append path [name]), ?_⟩
  intro same
  have shorter := within.length_le
  have length := congrArg List.length same
  rw [List.length_append, List.length_singleton] at length
  omega

theorem clear_dir_inside (depth : Nat) {dir path : Path} (within : dir <+: path) :
    MakesOnly (inside dir) (clearDir depth path) := by
  induction depth generalizing path with
  | zero => trivial
  | succ depth induction =>
      apply ignoring_makes_only
      refine ⟨within, ?_⟩
      rintro (raised | entries)
      · trivial
      · apply makes_only_for
        intro entry
        have child := child_inside within entry.name
        split
        · apply makes_only_and_then _ _ (induction child.1)
          rintro (raised | value)
          · trivial
          · exact ignoring_makes_only ⟨child, fun _ => trivial⟩
        · exact ignoring_makes_only ⟨child, fun _ => trivial⟩

theorem clear_dir_makes (depth : Nat) (path : Path) :
    MakesOnly pruneCall (clearDir depth path) := by
  apply makes_only_mono _ _ (clear_dir_inside depth (List.prefix_refl path))
  intro request calls
  cases request <;> trivial

/-- Whatever goes with a directory is the directory or in it. -/
def removesUnder (dir : Path) : DiskCall → Prop
  | .scandir _ => True
  | .remove path | .rmdir path => dir <+: path
  | _ => False

theorem rmtree_removes_under (depth : Nat) (path : Path) :
    MakesOnly (removesUnder path) (rmtree depth path) := by
  have cleared : ∀ request, inside path request → removesUnder path request := by
    intro request clears
    cases request <;> first | trivial | exact clears.1
  apply makes_only_and_then _ _
    (makes_only_mono _ cleared (clear_dir_inside depth (List.prefix_refl path)))
  rintro (raised | value)
  · trivial
  · exact ignoring_makes_only ⟨List.prefix_refl path, fun _ => trivial⟩

theorem rmtree_makes (depth : Nat) (path : Path) : MakesOnly pruneCall (rmtree depth path) := by
  apply makes_only_and_then _ _ (clear_dir_makes depth path)
  rintro (raised | value)
  · trivial
  · exact ignoring_makes_only ⟨trivial, fun _ => trivial⟩

theorem dir_size_makes (depth : Nat) (path : Path) (total : Nat) :
    MakesOnly pruneCall (dirSize depth path total) := by
  induction depth generalizing path total with
  | zero => trivial
  | succ depth induction =>
      refine ⟨trivial, ?_⟩
      rintro (raised | entries)
      · simp only [done_and_then]
        split <;> trivial
      · simp only [done_and_then, bind_is_and_then]
        apply makes_only_and_then
        · apply makes_only_fold
          intro total entry
          refine ⟨trivial, ?_⟩
          rintro (raised | size)
          · simp only [done_and_then, on_value_error, on_failure_error]
            split <;> trivial
          · trivial
        · rintro (raised | total)
          · trivial
          · rw [on_value_ok]
            apply makes_only_and_then _ _ (makes_only_select (fun d => not_link_makes_only trivial) _)
            rintro (raised | walked)
            · trivial
            · exact makes_only_fold _ _ (fun total d => induction _ total) total

theorem prune_makes (settings : Settings) (depth : Nat) (keepProjectId : Option String) :
    MakesOnly pruneCall (prune settings depth keepProjectId) := by
  unfold prune
  refine ⟨trivial, ?_⟩
  rintro (raised | _ | _)
  · trivial
  · trivial
  · refine ⟨trivial, ?_⟩
    rintro (raised | now)
    · trivial
    · refine ⟨trivial, ?_⟩
      rintro (raised | entries)
      · simp only [done_and_then]
        split <;> trivial
      · simp only [done_and_then, bind_is_and_then]
        apply makes_only_and_then
        · apply makes_only_fold
          intro live project
          unfold evictUnused
          split
          · apply makes_only_and_then _ _ (rmtree_makes _ _)
            rintro (raised | value) <;> trivial
          · trivial
        · rintro (raised | live)
          · trivial
          · rw [on_value_ok]
            split
            · trivial
            · apply makes_only_and_then
              · apply makes_only_map
                intro project
                apply makes_only_and_then _ _ (dir_size_makes _ _ _)
                rintro (raised | size) <;> trivial
              · rintro (raised | sized)
                · trivial
                · rw [on_value_ok]
                  apply makes_only_and_then
                  · unfold keptSize
                    split
                    · exact dir_size_makes _ _ _
                    · trivial
                  · rintro (raised | kept)
                    · trivial
                    · rw [on_value_ok]
                      apply makes_only_and_then
                      · apply makes_only_fold
                        intro total project
                        unfold evictToFit
                        split
                        · trivial
                        · apply makes_only_and_then _ _ (rmtree_makes _ _)
                          rintro (raised | value) <;> trivial
                      · rintro (raised | left) <;> trivial

end PretextBuildServer.PruneProtocol
