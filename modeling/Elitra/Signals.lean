import Mathlib.Algebra.Ring.Nat
import Mathlib.Data.List.Range

namespace Elitra.Signals

def nsig : ℕ := 32
def sigkill : ℕ := 9

/-- The part of an interrupt frame that signal delivery reads or writes. -/
structure Regs where
  rip : ℕ
  cs : ℕ
  rflags : ℕ
  userRsp : ℕ
  ss : ℕ
  rax : ℕ
  rdi : ℕ
  deriving DecidableEq, Repr

/-- `sig_pending` and `sig_blocked` bit by bit, and `sig_handlers`. -/
structure Sig where
  pending : ℕ → Bool
  blocked : ℕ → Bool
  handler : ℕ → ℕ

def Sig.new : Sig := ⟨fun _ => false, fun _ => false, fun _ => 0⟩

def Sig.raise (g : Sig) (sig : ℕ) : Sig := { g with pending := Function.update g.pending sig true }

def Sig.clear (g : Sig) (sig : ℕ) : Sig := { g with pending := Function.update g.pending sig false }

/-- What one delivery does besides clearing pending bits: it can end the task, or enter the user's
handler of a signal. -/
inductive Delivery where
  | nothing
  | exits (sig : ℕ)
  | enters (sig : ℕ)
  deriving DecidableEq, Repr

/-- `old_usp - 56`, in 64 bits. -/
def newUsp (r : Regs) : ℕ := (r.userRsp + 2 ^ 64 - 56) % 2 ^ 64

/-- A default action that ends the task. -/
def fatal (sig : ℕ) : Bool := sig == sigkill || sig == 11 || sig == 15

def deliverLoop (r : Regs) : List ℕ → Sig → Sig × Delivery
  | [], g => (g, .nothing)
  | sig :: rest, g =>
    if !g.pending sig then deliverLoop r rest g
    else if g.blocked sig then deliverLoop r rest g
    else if g.handler sig = 1 then deliverLoop r rest (g.clear sig)
    else if g.handler sig = 0 then
      if fatal sig then (g, .exits sig) else deliverLoop r rest (g.clear sig)
    else if newUsp r < 0x1000 then (g, .exits sig)
    else (g.clear sig, .enters sig)

def deliverSignals (g : Sig) (r : Regs) : Sig × Delivery :=
  deliverLoop r (List.range' 1 (nsig - 1)) g

/-- The seven words pushed on the user stack before a handler is entered. -/
def sigframe (r : Regs) (sig : ℕ) : List ℕ := [sig, r.rip, r.cs, r.rflags, r.userRsp, r.ss, 0]

def enterHandler (g : Sig) (r : Regs) (sig : ℕ) : Regs :=
  { r with userRsp := newUsp r, rip := g.handler sig, rdi := sig }

end Elitra.Signals
