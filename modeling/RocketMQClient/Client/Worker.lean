import Mathlib.Algebra.Group.Int.Defs
import RocketMQClient.Library.Lifecycle
import RocketMQClient.Marshal.Send

namespace RocketMQClient.Client

open Marshal

abbrev Method := Library.Lifecycle.Op

/-- How a native call ends.  Status 0 means OK, and an OK call has written its
result; one that fails may have written anything or nothing. -/
inductive SdkOutcome (α : Type)
  | ok (result : α)
  | failed (status : Int) (nonzero : status ≠ 0) (written : Option α)
  | threw (what : String)
  deriving DecidableEq

def SdkOutcome.isOk : SdkOutcome α → Bool
  | .ok _ => true
  | _ => false

structure CSendResult where
  sendStatus : Nat
  msgId : String
  offset : Int
  deriving DecidableEq

inductive Job
  | startOrShutdown (method : Method)
  | sendMessage (msg : CMessage)
  deriving DecidableEq

inductive Outcome
  | startOrShutdown (o : SdkOutcome Unit)
  | sendMessage (o : SdkOutcome CSendResult)
  deriving DecidableEq

def Outcome.isOk : Outcome → Bool
  | .startOrShutdown o => o.isOk
  | .sendMessage o => o.isOk

inductive WorkerPhase
  | queued | executing | executed
  deriving DecidableEq

structure Worker where
  self : Nat
  job : Job
  callback : Option Nat
  phase : WorkerPhase := .queued
  errmsg : Option String := none
  ret : Int := 0
  sendRet : Option CSendResult := none

def Worker.startOrShutdown (wk : Worker) : SdkOutcome Unit → Worker
  | .ok () => { wk with ret := 0 }
  | .failed status _ _ => { wk with ret := status }
  | .threw what => { wk with errmsg := some what }

/-- `Execute` of a send worker; the status of `SendMessageSync` is not looked at. -/
def Worker.sendMessage (wk : Worker) : SdkOutcome CSendResult → Worker
  | .ok result => { wk with sendRet := some result }
  | .failed _ _ written => { wk with sendRet := written }
  | .threw what => { wk with errmsg := some what }

def Worker.execute (wk : Worker) : Outcome → Option Worker
  | .startOrShutdown o =>
    match wk.job with
    | .startOrShutdown _ => some { wk.startOrShutdown o with phase := .executed }
    | .sendMessage _ => none
  | .sendMessage o =>
    match wk.job with
    | .startOrShutdown _ => none
    | .sendMessage _ => some { wk.sendMessage o with phase := .executed }

/-- What the caller is told.  `indeterminate` is a result read from a `send_ret`
that nobody wrote. -/
inductive Reply
  | ret (ret : Int)
  | sendResult (status : Nat) (statusStr : String) (msgId : String) (offset : Int)
  | indeterminate
  deriving DecidableEq

inductive Answer
  | error (err : String)
  | success (reply : Reply)
  deriving DecidableEq

def Answer.isError : Answer → Bool
  | .error _ => true
  | .success _ => false

def sendResultStatusStr : Nat → String
  | 0 => "OK"
  | 1 => "FLUSH_DISK_TIMEOUT"
  | 2 => "FLUSH_SLAVE_TIMEOUT"
  | 3 => "SLAVE_NOT_AVAILABLE"
  | _ => "UNKNOWN"

/-- The Number made of a `long long`: the nearest value with 53 significant bits,
ties to even. -/
def toNumber (n : Int) : Int :=
  let dropped := n.natAbs.log2 - 52
  let q := n.natAbs / 2 ^ dropped
  let r := n.natAbs % 2 ^ dropped
  let q := if 2 ^ dropped < 2 * r ∨ (2 * r = 2 ^ dropped ∧ q % 2 = 1) then q + 1 else q
  n.sign * (q * 2 ^ dropped)

def sendReply : Option CSendResult → Reply
  | some r =>
    .sendResult r.sendStatus (sendResultStatusStr r.sendStatus) r.msgId (toNumber r.offset)
  | none => .indeterminate

def Worker.answer (wk : Worker) : Answer :=
  match wk.errmsg, wk.job with
  | some err, _ => .error err
  | none, .startOrShutdown _ => .success (.ret wk.ret)
  | none, .sendMessage _ => .success (sendReply wk.sendRet)

theorem toNumber_of_lt {n : Int} (h : n.natAbs < 2 ^ 53) : toNumber n = n := by
  have hlog : n.natAbs.log2 - 52 = 0 := by
    rcases Nat.eq_zero_or_pos n.natAbs with h0 | h0
    · simp [h0]
    · have := (Nat.log2_lt h0.ne').mpr h
      omega
  have hexact : toNumber n = n.sign * n.natAbs := by
    simp only [toNumber, hlog, Nat.pow_zero, Nat.div_one, Nat.mod_one]
    rw [if_neg (by omega)]
    exact congrArg (n.sign * ·) (Int.mul_one _)
  rw [hexact, Int.sign_mul_natAbs]

end RocketMQClient.Client
