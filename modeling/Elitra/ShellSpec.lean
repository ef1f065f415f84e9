import Elitra.ShellHeap

namespace Elitra.Shell

inductive Word where
  | plain (text : Text)
  | quoted (text : Text)

structure Redirect where
  kind : RedirKind
  file : Word

structure Simple where
  name : Word
  args : List Word
  redirects : List Redirect

structure Pipeline where
  first : Simple
  rest : List Simple

inductive Connector where
  | and
  | or
  deriving DecidableEq

structure AndOr where
  first : Pipeline
  rest : List (Connector × Pipeline)

structure Script where
  first : AndOr
  rest : List AndOr

def Word.text : Word → Text
  | .plain text | .quoted text => text

def Word.render : Word → Text
  | .plain text => text
  | .quoted text => quote :: (text ++ [quote])

def RedirKind.render : RedirKind → Text
  | .output => ['>']
  | .append => ['>', '>']
  | .input => ['<']

def Simple.render (s : Simple) : Text :=
  s.name.render ++ (s.args.flatMap fun w => ' ' :: w.render) ++
    s.redirects.flatMap fun r => ' ' :: r.kind.render ++ ' ' :: r.file.render

def Pipeline.render (p : Pipeline) : Text :=
  p.first.render ++ p.rest.flatMap fun s => ' ' :: '|' :: ' ' :: s.render

def Connector.render : Connector → Text
  | .and => ['&', '&']
  | .or => ['|', '|']

def AndOr.render (a : AndOr) : Text :=
  a.first.render ++ a.rest.flatMap fun step => ' ' :: step.1.render ++ ' ' :: step.2.render

def Script.render (s : Script) : Text :=
  s.first.render ++ s.rest.flatMap fun a => ' ' :: ';' :: ' ' :: a.render

def Simple.argv (s : Simple) : List Text := s.name.text :: s.args.map Word.text

def Simple.prescribed (s : Simple) : Behaviour :=
  s.redirects.foldl (fun b r => .redirect r.kind r.file.text b) (.run s.argv)

def pipeAll (first : Behaviour) : List Behaviour → Behaviour
  | [] => first
  | second :: rest => .pipe first (pipeAll second rest)

def seqAll (first : Behaviour) : List Behaviour → Behaviour
  | [] => first
  | second :: rest => .seq first (seqAll second rest)

def Pipeline.prescribed (p : Pipeline) : Behaviour :=
  pipeAll p.first.prescribed (p.rest.map Simple.prescribed)

/-- A pipeline succeeds when its last command does; `ok` says which commands do. -/
def Pipeline.succeeds (ok : List Text → Bool) (p : Pipeline) : Bool :=
  ok (p.rest.getLastD p.first).argv

/-- The pipelines that run after one that ended with the status `ended`. -/
def taken (ok : List Text → Bool) (ended : Bool) : List (Connector × Pipeline) → List Pipeline
  | [] => []
  | (connector, p) :: rest =>
    if connector = .and ↔ ended = true then p :: taken ok (p.succeeds ok) rest
    else taken ok ended rest

def AndOr.prescribed (ok : List Text → Bool) (a : AndOr) : Behaviour :=
  seqAll a.first.prescribed ((taken ok (a.first.succeeds ok) a.rest).map Pipeline.prescribed)

def Script.prescribed (ok : List Text → Bool) (s : Script) : Behaviour :=
  seqAll (s.first.prescribed ok) (s.rest.map (AndOr.prescribed ok))

/-- The behaviour without the note on which process does it. -/
def Behaviour.visible : Behaviour → Behaviour
  | .fork child => child.visible
  | .seq first second => .seq first.visible second.visible
  | .pipe left right => .pipe left.visible right.visible
  | .redirect kind path b => .redirect kind path b.visible
  | b => b

/-- A shell with this heap does what the operators of the line prescribe. -/
def Obeyed (r : Runtime) (ok : List Text → Bool) (s : Script) : Prop :=
  (runCommand r s.render).2.visible = s.prescribed ok

lemma Simple.prescribed_ne_nothing (s : Simple) : s.prescribed ≠ .nothing := by
  unfold Simple.prescribed
  generalize hb : Behaviour.run s.argv = b
  have hne : b ≠ .nothing := hb ▸ Behaviour.noConfusion
  clear hb
  induction s.redirects generalizing b with
  | nil => exact hne
  | cons r rest ih => exact ih _ Behaviour.noConfusion

lemma pipeAll_ne_nothing {first : Behaviour} (h : first ≠ .nothing) (rest : List Behaviour) :
    pipeAll first rest ≠ .nothing := by
  cases rest with
  | nil => exact h
  | cons => exact Behaviour.noConfusion

lemma seqAll_ne_nothing {first : Behaviour} (h : first ≠ .nothing) (rest : List Behaviour) :
    seqAll first rest ≠ .nothing := by
  cases rest with
  | nil => exact h
  | cons => exact Behaviour.noConfusion

lemma Script.prescribed_ne_nothing (ok : List Text → Bool) (s : Script) :
    s.prescribed ok ≠ .nothing :=
  seqAll_ne_nothing (seqAll_ne_nothing (pipeAll_ne_nothing (Simple.prescribed_ne_nothing _) _) _) _

/-- A line that has no words for want of memory is left before its operators are looked for. -/
lemma runCommand_linked (line : Text) : runCommand .linked line = (.linked, .nothing) := by
  unfold runCommand
  rw [runFuel]
  simp only [parseLine, parseArgsIn_linked, if_true]

/-- No command line is obeyed: every one prescribes something, and the shell does nothing. -/
theorem not_obeyed (ok : List Text → Bool) (s : Script) : ¬ Obeyed .linked ok s := by
  unfold Obeyed
  rw [runCommand_linked]
  exact (s.prescribed_ne_nothing ok).symm

def call (name : String) (args : List String) : Simple :=
  ⟨.plain name.toList, args.map fun arg => .plain arg.toList, []⟩

def single (s : Simple) : Script := ⟨⟨⟨s, []⟩, []⟩, []⟩

def connected (left : Simple) (connector : Connector) (right : Simple) : Script :=
  ⟨⟨⟨left, []⟩, [(connector, ⟨right, []⟩)]⟩, []⟩

/-- `heap_init`, which the shell never calls. -/
def Runtime.init (base size : ℕ) : Runtime := ⟨[⟨base, size, true⟩], base + size, base + size⟩

/-- `ls ; pwd` does nothing. With a heap every operator but `;` and `|` is still misread on some
line: `||` is a pipe whose right side begins with `|`, the right side of `&&` runs although the left
side fails, no file is opened, and a `;` between quotes cuts the line. -/
theorem operators_not_obeyed :
    (runCommand .linked "ls ; pwd".toList).2 = .nothing ∧
      ¬ Obeyed .linked (fun _ => true) ⟨⟨⟨call "ls" [], []⟩, []⟩, [⟨⟨call "pwd" [], []⟩, []⟩]⟩ ∧
      (connected (call "ls" []) .or (call "pwd" [])).render = "ls || pwd".toList ∧
      (runCommand (.init 4096 65536) "ls || pwd".toList).2.visible =
        .pipe (.run ["ls".toList]) (.message .pipeUsage) ∧
      ¬ Obeyed (.init 4096 65536) (fun _ => true) (connected (call "ls" []) .or (call "pwd" [])) ∧
      (runCommand (.init 4096 65536) "rm x && pwd".toList).2.visible =
        .seq (.run ["rm".toList, "x".toList]) (.run ["pwd".toList]) ∧
      ¬ Obeyed (.init 4096 65536) (fun _ => false)
        (connected (call "rm" ["x"]) .and (call "pwd" [])) ∧
      (runCommand (.init 4096 65536) "ls > f".toList).2.visible = .message .cannotOpen ∧
      ¬ Obeyed (.init 4096 65536) (fun _ => true)
        (single ⟨.plain "ls".toList, [], [⟨.output, .plain "f".toList⟩]⟩) ∧
      ¬ Obeyed (.init 4096 65536) (fun _ => true)
        (single ⟨.plain "echo".toList, [.quoted [';']], []⟩) := by
  unfold Obeyed
  decide +kernel

end Elitra.Shell
