import NameSearch.FileTree

/-!
# Saved files

A file that has been saved at a path is found there: writing it takes no folder away, so the path
leads where it led before.  Saving there once more leaves nothing of the earlier content.
-/

namespace NameSearch
namespace FileTree

variable {tree : FileTree} {content : Bytes}

/-- Whether a file can be saved at a path. -/
def IsWritable (tree : FileTree) (path : String) : Prop :=
  ∃ content saved, tree.save path content = .ok saved

/-- The ways to the files. -/
def ways (tree : FileTree) : List (List String) := tree.files.map Prod.fst

@[simp]
theorem home_put (tree : FileTree) (way : List String) (content : Bytes) :
    (tree.put way content).home = tree.home := by
  rw [put]
  split <;> rfl

theorem ways_put (tree : FileTree) (way : List String) (content : Bytes) :
    (tree.put way content).ways = tree.ways ∨
      (tree.put way content).ways = tree.ways ++ [way] := by
  rw [put]
  split
  · left
    rw [ways, ways, List.map_map]
    apply List.map_congr_left
    intro file _
    rw [Function.comp_apply]
    split
    · next same => exact (beq_iff_eq.mp same).symm
    · rfl
  · right
    simp [ways]

theorem isFolder_eq (tree : FileTree) (way : List String) :
    tree.isFolder way = (way.isPrefixOf tree.home
      || tree.ways.any fun other => way.isPrefixOf other && way.length < other.length) := by
  rw [isFolder, ways, List.any_map]
  rfl

theorem isFolder_put {folder : List String} (found : tree.isFolder folder = true)
    (way : List String) : (tree.put way content).isFolder folder = true := by
  rw [isFolder_eq, Bool.or_eq_true] at found ⊢
  rw [home_put]
  refine found.imp_right fun inside => ?_
  rcases ways_put tree way content with same | added
  · rwa [same]
  · rw [added, List.any_append, inside, Bool.true_or]

theorem isFolder_put_self {way : List String} (file : tree.isFolder way = false) :
    (tree.put way content).isFolder way = false := by
  rw [isFolder_eq, Bool.or_eq_false_iff] at file ⊢
  rw [home_put]
  refine file.imp_right fun outside => ?_
  rcases ways_put tree way content with same | added
  · rwa [same]
  · rw [added, List.any_append, outside, Bool.false_or]
    simp

private theorem lookup_replaced {way : List String} {files : List (List String × Bytes)}
    (there : (files.lookup way).isSome = true) (content : Bytes) :
    (files.map fun file => if file.1 == way then (way, content) else file).lookup way =
      some content := by
  induction files with
  | nil => cases there
  | cons file later induction =>
      obtain ⟨other, held⟩ := file
      by_cases same : other = way
      · simp [same]
      · have differs : (way == other) = false := beq_eq_false_iff_ne.mpr (Ne.symm same)
        rw [List.lookup_cons, differs] at there
        rw [List.map_cons, if_neg (by simpa using same), List.lookup_cons, differs]
        exact induction there

theorem content?_put_self (tree : FileTree) (way : List String) (content : Bytes) :
    (tree.put way content).content? way = some content := by
  rw [put]
  split
  · next there => exact lookup_replaced there content
  · next free =>
      have unknown : tree.files.lookup way = none := by
        rwa [content?, Option.not_isSome_iff_eq_none] at free
      simp [content?, List.lookup_append, unknown]

private theorem replaced_of_unknown {way : List String} {files : List (List String × Bytes)}
    (unknown : files.lookup way = none) (content : Bytes) :
    (files.map fun file => if file.1 == way then (way, content) else file) = files := by
  have same : (files.map fun file => if file.1 == way then (way, content) else file) =
      files.map id := by
    apply List.map_congr_left
    intro file member
    rw [List.lookup_eq_none_iff] at unknown
    have other : way ≠ file.1 := bne_iff_ne.mp (unknown file member)
    rw [beq_false_of_ne other.symm, if_neg Bool.false_ne_true, id]
  rw [same, List.map_id]

theorem put_put (tree : FileTree) (way : List String) (content later : Bytes) :
    (tree.put way content).put way later = tree.put way later := by
  have there : ((tree.put way content).content? way).isSome = true := by
    rw [content?_put_self, Option.isSome_some]
  rw [put, if_pos there]
  by_cases known : (tree.content? way).isSome = true
  · rw [put, put, if_pos known, if_pos known, List.map_map]
    congr 2
    funext file
    rw [Function.comp_apply]
    split
    · rw [if_pos (beq_self_eq_true way)]
    · rfl
  · have unknown : tree.files.lookup way = none := by
      rwa [content?, Option.not_isSome_iff_eq_none] at known
    rw [put, put, if_neg known, if_neg known, List.map_append, replaced_of_unknown unknown]
    simp

/-! ## Paths -/

theorem find_put_of_folder {way : List String} {name : String}
    (found : tree.find way name = .ok .folder) (other : List String) :
    (tree.put other content).find way name = .ok .folder := by
  rw [find] at found ⊢
  split at found
  · cases found
  · next short =>
      rw [if_neg short]
      split at found
      · next folder => rw [if_pos (isFolder_put folder other)]
      · split at found <;> cases found

theorem enter_put {way way' : List String} {step : String}
    (entered : tree.enter way step = .ok way') (other : List String) :
    (tree.put other content).enter way step = .ok way' := by
  rw [enter] at entered ⊢
  split
  · next dot => rwa [if_pos dot] at entered
  · next noDot =>
      rw [if_neg noDot] at entered
      split
      · next dots => rwa [if_pos dots] at entered
      · next noDots =>
          rw [if_neg noDots] at entered
          cases found : tree.find way step with
          | error fault => simp [found] at entered
          | ok spot =>
              cases spot with
              | folder =>
                  rw [found] at entered
                  rw [find_put_of_folder found other]
                  exact entered
              | file held => simp [found] at entered
              | free => simp [found] at entered

theorem foldlM_enter_put {steps : List String} {start way : List String}
    (entered : steps.foldlM tree.enter start = .ok way) (other : List String) :
    steps.foldlM (tree.put other content).enter start = .ok way := by
  induction steps generalizing start with
  | nil => exact entered
  | cons step later induction =>
      rw [List.foldlM_cons] at entered ⊢
      cases first : tree.enter start step with
      | error fault =>
          rw [first] at entered
          cases entered
      | ok next =>
          rw [first] at entered
          rw [enter_put first other]
          exact induction entered

theorem follow_put {path : String} {target : Target} (led : tree.follow path = .ok target)
    (other : List String) : (tree.put other content).follow path = .ok target := by
  simp only [follow, home_put] at led ⊢
  split at led
  · cases led
  · next noNul =>
      rw [if_neg noNul]
      split at led
      · cases led
      · next filled =>
          rw [if_neg filled]
          split at led
          · cases led
          · next short =>
              rw [if_neg short]
              cases last : (Path.steps path).getLast? with
              | none =>
                  rw [last] at led
                  exact led
              | some step =>
                  simp only [last] at led ⊢
                  split at led
                  · cases led
                  · next way entered =>
                      rw [foldlM_enter_put entered other]
                      exact led

theorem find_put_self {way : List String} {name : String} {spot : Spot}
    (found : tree.find way name = .ok spot) (noFolder : spot ≠ .folder) :
    (tree.put (way ++ [name]) content).find way name = .ok (.file content) := by
  rw [find] at found ⊢
  split at found
  · cases found
  · next short =>
      rw [if_neg short]
      split at found
      · next folder =>
          cases found
          exact absurd rfl noFolder
      · next file =>
          rw [Bool.not_eq_true] at file
          rw [isFolder_put_self file, if_neg Bool.false_ne_true, content?_put_self]

theorem openInput_of_save {saved : FileTree} {path : String}
    (done : tree.save path content = .ok saved) :
    saved.openInput path = .ok ⟨content, none⟩ := by
  rw [save] at done
  split at done
  · cases done
  · cases done
  · next way name led =>
      split at done
      · cases done
      · next noSlash =>
          split at done
          · cases done
          · cases done
          · next spot noFolder found =>
              cases done
              simp only [openInput, follow_put led, find_put_self found noFolder]
              rw [if_neg noSlash]

/-- Whether a path takes a file that is written does not depend on its content, and a file that has
been saved there is replaced. -/
theorem save_of_save {saved : FileTree} {path : String} (done : tree.save path content = .ok saved)
    (later : Bytes) :
    ∃ again, tree.save path later = .ok again ∧ saved.save path later = .ok again := by
  rw [save] at done
  split at done
  · cases done
  · cases done
  · next way name led =>
      split at done
      · cases done
      · next noSlash =>
          split at done
          · cases done
          · cases done
          · next spot noFolder found =>
              cases done
              refine ⟨tree.put (way ++ [name]) later, ?_, ?_⟩
              · rw [save, led]
                dsimp only
                rw [if_neg noSlash, found]
                cases spot with
                | folder => exact absurd rfl noFolder
                | file held => rfl
                | free => rfl
              · rw [save, follow_put led]
                dsimp only
                rw [if_neg noSlash, find_put_self found noFolder]
                dsimp only
                rw [put_put]

end FileTree
end NameSearch
