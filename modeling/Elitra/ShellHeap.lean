import Elitra.Shell

namespace Elitra.Shell

/-- `run_command` on a line without operators. -/
def runLine (r : Runtime) (line : Text) : Behaviour :=
  let args := (parseArgsIn (line.length + 1) (maxArgs - 1) r line).2
  if args = [] then .nothing else runSimple args

lemma runCommand_of_no_operator {r : Runtime} {line : Text} (hsemi : splitAtChar ';' line = none)
    (hand : splitAnd line = none) (hcommand : command line = line)
    (hbar : splitAtChar '|' line = none) : (runCommand r line).2 = runLine r line := by
  unfold runCommand runLine
  rw [runFuel]
  simp only [hsemi, hand, hcommand, hbar, lt_irrefl, if_false, parseLine]
  split <;> rfl

/-- The paths under which a command is looked for, in that order. -/
def candidates (cmd : Text) : List Text :=
  [cmd, mntBin ++ cmd ++ ".elf".toList, "/bin/".toList ++ cmd ++ ".elf".toList]

/-- What a line of these words has to do: no panic, and a child that executes the words if the
program is found. -/
def Launches (found : Text → Bool) (words : List Text) (b : Behaviour) : Prop :=
  b ≠ .panic ∧ ((candidates (words.headD [])).any found → b = .fork (.run words))

lemma malloc_linked {size : ℕ} (h : size ≤ 256) :
    Runtime.linked.malloc size = (Runtime.linked, none) := by
  unfold Runtime.malloc
  split
  · rfl
  have hchunk : 0 < 0 + alignUp (size + hdrSize) 4096 := by
    unfold alignUp hdrSize
    omega
  exact if_pos hchunk

lemma parseArgsIn_linked (fuel room : ℕ) (line : Text) :
    parseArgsIn fuel room .linked line = (.linked, []) := by
  induction fuel generalizing line with
  | zero => rfl
  | succ fuel ih =>
    rw [parseArgsIn]
    split
    · rfl
    split
    · rfl
    dsimp only
    have hnone (word : Text) : (if word ≠ [] ∧ word.length < 256 then
        Runtime.linked.malloc (word.length + 1) else (.linked, none)) = (.linked, none) := by
      split
      · exact malloc_linked (by omega)
      · rfl
    rw [hnone]
    exact ih _

/-- No line starts anything: without a heap it has no words, and with one `run_command` does not get
past the path of the program. -/
theorem runLine_starts_nothing (line : Text) (words : List Text) (found : Text → Bool) :
    runLine .linked line = .nothing ∧ (∀ r argv, runLine r line ≠ .fork (.run argv)) ∧
      (Launches found words (runLine .linked line) ↔
        ∀ p ∈ candidates (words.headD []), found p = false) := by
  have hnothing : runLine .linked line = .nothing := by
    unfold runLine
    rw [parseArgsIn_linked]
    rfl
  refine ⟨hnothing, fun r argv => ?_, ?_⟩
  · unfold runLine runSimple
    dsimp only
    repeat' split
    all_goals first | exact Behaviour.noConfusion | contradiction
  · rw [hnothing]
    simp [Launches]

theorem runLine_app_not_launched :
    ¬ Launches (· = "/bin/app.elf".toList) ["app".toList] (runLine .linked "app".toList) := by
  unfold Launches
  decide

end Elitra.Shell
