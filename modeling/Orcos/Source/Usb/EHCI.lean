import Mathlib.Logic.Function.Basic

/-!
# The asynchronous list of the EHCI controller

Source: src/source/arch/shared/usb_hc/USBEHCIHostController.cc, `USBBulkMsg`, `sendUSBControlMsg`
and the constructor; `QH_LINK` of USBEHCIHostController.hh.

What is done while the spin lock is held is one step. Between its two steps a message has acquired
its device and waits for its transfer, which may take any time; a message for a device that is
acquired waits before its first step. The transfer descriptors are left out.
-/
namespace Orcos.Source.Usb.EHCI

/-- `link & ~0x1f`. -/
def linked (link : Nat) : Nat := link / 32 * 32

inductive Message
  | bulk (qh : Nat)
  | control (qh : Nat)

def Message.qh : Message → Nat
  | bulk qh => qh
  | control qh => qh

/-- The `qh_link` of each queue head, and the message that has acquired each device. -/
structure Controller (δ : Type) where
  qh_link : Nat → Nat
  acquired : δ → Option Message

/-- The addresses of the queue heads: the first of the list, and those of the endpoints, where `0`
stands for none. -/
structure QueueHeads (δ : Type) where
  QHmain : Nat
  device_priv : δ → Nat → Nat

variable {δ : Type} [DecidableEq δ]

def Controller.qhLink (s : Controller δ) (src dst : Nat) : Controller δ :=
  { s with qh_link := Function.update s.qh_link src (linked dst + 2) }

def Controller.setAcquired (s : Controller δ) (dev : δ) (message : Option Message) : Controller δ :=
  { s with acquired := Function.update s.acquired dev message }

variable (q : QueueHeads δ)

/-- After the constructor. -/
def Controller.start : Controller δ := qhLink ⟨fun _ => 0, fun _ => none⟩ q.QHmain q.QHmain

/-- The loop that searches for the queue head that references `qh`. -/
def prevQH (qh_link : Nat → Nat) (qh : Nat) : Nat → Nat → Option Nat
  | 0, _ => none
  | fuel + 1, prev =>
    if linked (qh_link prev) ≠ qh then prevQH qh_link qh fuel (linked (qh_link prev)) else some prev

/-- The first step of `USBBulkMsg`: insert the transfer at the front. -/
def Controller.linkBulk (s : Controller δ) (dev : δ) (endpoint : Nat) : Controller δ :=
  let qh := q.device_priv dev endpoint
  ((s.qhLink qh (s.qh_link q.QHmain)).qhLink q.QHmain qh).setAcquired dev (some (.bulk qh))

/-- The second step of `USBBulkMsg`. -/
def Controller.unlinkBulk (fuel : Nat) (s : Controller δ) (dev : δ) (qh : Nat) :
    Option (Controller δ) :=
  (prevQH s.qh_link qh fuel q.QHmain).map fun prev =>
    (s.qhLink prev (s.qh_link qh)).setAcquired dev none

/-- The first step of `sendUSBControlMsg`. -/
def Controller.linkControl (s : Controller δ) (dev : δ) (endpoint : Nat) : Controller δ :=
  let qh := q.device_priv dev endpoint
  ((s.qhLink qh q.QHmain).qhLink q.QHmain qh).setAcquired dev (some (.control qh))

/-- The second step of `sendUSBControlMsg`. -/
def Controller.unlinkControl (s : Controller δ) (dev : δ) : Controller δ :=
  (s.qhLink q.QHmain q.QHmain).setAcquired dev none

inductive Event (δ : Type)
  | bulk (dev : δ) (endpoint : Nat)
  | control (dev : δ) (endpoint : Nat)
  | done (dev : δ)

/-- One step, or `none` when it does not end. -/
def step (fuel : Nat) (s : Controller δ) : Event δ → Option (Controller δ)
  | .bulk dev endpoint =>
    if q.device_priv dev endpoint = 0 ∨ (s.acquired dev).isSome then some s
    else some (s.linkBulk q dev endpoint)
  | .control dev endpoint =>
    if q.device_priv dev endpoint = 0 ∨ (s.acquired dev).isSome then some s
    else some (s.linkControl q dev endpoint)
  | .done dev =>
    match s.acquired dev with
    | none => some s
    | some (.bulk qh) => s.unlinkBulk q fuel dev qh
    | some (.control _) => some (s.unlinkControl q dev)

def exec (fuel : Nat) (s : Controller δ) (events : List (Event δ)) : Option (Controller δ) :=
  events.foldlM (step q fuel) s

end Orcos.Source.Usb.EHCI
