import LiteOS.Kernel.SortLink
import LiteOS.Lib.Chains
import LiteOS.Lib.Runs
import Mathlib.Algebra.BigOperators.Group.List.Basic
import Mathlib.Algebra.GroupWithZero.Nat

/-!
# Software timers

The model of `los_swtmr.c` (`LOSCFG_BASE_CORE_SWTMR_ALIGN == 0`). A timer is named by the index of
its control block in `g_swtmrCBArray`. The timer task takes expired timers from a message queue,
which is the sequence of its messages here; reading a message and handling it are two steps, so that
other calls come between.
-/

namespace LiteOS.Timer

open Lib Kernel

structure SwtmrConfig where
  /-- `LOSCFG_BASE_CORE_SWTMR_LIMIT` -/
  swtmrLimit : ℕ
  /-- `OS_SWTMR_HANDLE_QUEUE_SIZE` -/
  handleQueueSize : ℕ
  /-- `g_sysClock` -/
  sysClock : ℕ
  /-- `LOSCFG_BASE_CORE_TICK_PER_SECOND` -/
  tickPerSecond : ℕ
  limit_pos : 0 < swtmrLimit
  /-- `OsTickTimerInit` refuses other clocks. -/
  tick : 0 < tickPerSecond ∧ tickPerSecond ≤ sysClock

/-- `OS_SYS_TICK_TO_CYCLE` -/
def SwtmrConfig.sysTickToCycle (c : SwtmrConfig) (ticks : ℕ) : ℕ :=
  ticks * c.sysClock / c.tickPerSecond

/-- `OS_SWTMR_MAX_TIMERID` -/
def SwtmrConfig.maxTimerID (c : SwtmrConfig) : ℕ := 0xFFFFFFFF / c.swtmrLimit * c.swtmrLimit

inductive SwtmrState
  | unused
  | created
  | ticking
deriving DecidableEq, Repr

inductive SwtmrMode
  | once
  | period
  | noSelfDelete
deriving DecidableEq, Repr

/-- Return codes, named after `LOS_ERRNO_SWTMR_*` -/
inductive SwtmrErrno
  | ok
  | intervalNotSuited
  | modeInvalid
  | ptrNull
  | retPtrNull
  | maxSize
  | idInvalid
  | notCreated
  | notStarted
  | tickPtrNull
deriving DecidableEq, Repr

/-- `SWTMR_CTRL_S`; handlers are named by numbers. -/
structure SwtmrCB where
  pstNext : Option ℕ := none
  ucState : SwtmrState := .unused
  ucMode : SwtmrMode := .once
  ucOverrun : ℕ := 0
  usTimerID : ℕ := 0
  uwInterval : ℕ := 0
  uwArg : ℕ := 0
  pfnHandler : Option ℕ := none
  /-- `stSortList.responseTime` -/
  responseTime : ℕ := 0
  startTime : ℕ := 0
deriving DecidableEq, Repr

structure SwtmrHandlerItem where
  handler : Option ℕ
  arg : ℕ
  swtmrID : ℕ
deriving DecidableEq, Repr

/-- The control block that a call of `LOS_SwtmrCreate` has taken, and what it will write to it. -/
structure SwtmrNew where
  block : ℕ
  interval : ℕ
  mode : SwtmrMode
  handler : ℕ
  arg : ℕ
deriving DecidableEq

/-- The globals of `los_swtmr.c`; `handling` is the message that the timer task has read and not
handled yet. -/
structure Swtmrs where
  cbArray : ℕ → SwtmrCB
  freeList : Option ℕ
  sortLink : List ℕ := []
  handlerQueue : List SwtmrHandlerItem := []
  handling : Option SwtmrHandlerItem := none

namespace Swtmrs

section

variable (c : SwtmrConfig) (s : Swtmrs)

def osSwtmrInit : Swtmrs where
  cbArray t := { usTimerID := t, pstNext := if t + 1 < c.swtmrLimit then some (t + 1) else none }
  freeList := some 0

@[simps]
def modifyCB (t : ℕ) (f : SwtmrCB → SwtmrCB) : Swtmrs :=
  { s with cbArray := Function.update s.cbArray t (f (s.cbArray t)) }

def osAdd2SortLink (t startTime waitTicks : ℕ) : Swtmrs :=
  let s := s.modifyCB t fun cb =>
    { cb with responseTime := (startTime + c.sysTickToCycle waitTicks) % 2 ^ 64 }
  { s with sortLink := osAddNode2SortLink (fun u => (s.cbArray u).responseTime) s.sortLink t }

def osDeleteNodeSortLink (t : ℕ) : Swtmrs :=
  { s.modifyCB t fun cb => { cb with responseTime := sortLinkInvalidTime } with
    sortLink := s.sortLink.erase t }

def osDeleteSortLink (t : ℕ) : Swtmrs :=
  if (s.cbArray t).responseTime ≠ sortLinkInvalidTime then s.osDeleteNodeSortLink t else s

def osSwtmrStart (t : ℕ) : Swtmrs :=
  let s := s.modifyCB t fun cb => { cb with ucState := .ticking }
  s.osAdd2SortLink c t (s.cbArray t).startTime (s.cbArray t).uwInterval

def osSwtmrDelete (t : ℕ) : Swtmrs :=
  { s.modifyCB t fun cb =>
      { cb with
        usTimerID := if cb.usTimerID < c.maxTimerID - c.swtmrLimit then cb.usTimerID + c.swtmrLimit
          else cb.usTimerID % c.swtmrLimit
        pstNext := s.freeList
        ucState := .unused } with
    freeList := some t }

def osSwtmrStop (t : ℕ) : Swtmrs :=
  (s.osDeleteSortLink t).modifyCB t fun cb => { cb with ucState := .created, ucOverrun := 0 }

/-- `LOS_QueueWriteCopy` without waiting, to `g_swtmrHandlerQueue` -/
def queueWriteCopy (item : SwtmrHandlerItem) : Swtmrs :=
  if s.handlerQueue.length < c.handleQueueSize then
    { s with handlerQueue := s.handlerQueue ++ [item] }
  else s

def osSwtmrTimeoutHandle (t : ℕ) : Swtmrs :=
  let s := s.queueWriteCopy c ⟨(s.cbArray t).pfnHandler, (s.cbArray t).uwArg,
    (s.cbArray t).usTimerID⟩
  match (s.cbArray t).ucMode with
  | .period =>
    (s.modifyCB t fun cb => { cb with ucOverrun := (cb.ucOverrun + 1) % 2 ^ 8 }).osSwtmrStart c t
  | .noSelfDelete => s.modifyCB t fun cb => { cb with ucState := .created }
  | .once => s

/-- One turn of the loop of `OsSwtmrScan`, for the first timer on the sort link -/
def expire (t : ℕ) : Swtmrs :=
  ((s.modifyCB t fun cb => { cb with startTime := cb.responseTime }).osDeleteNodeSortLink t
    ).osSwtmrTimeoutHandle c t

/-- The loop of `OsSwtmrScan` -/
def scanLoop (c : SwtmrConfig) (currTime : ℕ) : ℕ → Swtmrs → Swtmrs
  | 0, s => s
  | fuel + 1, s =>
    match s.sortLink with
    | [] => s
    | t :: _ =>
      if (s.cbArray t).responseTime ≤ currTime then scanLoop c currTime fuel (s.expire c t) else s

/-- How many cycles the timers on the sort link are due together; every turn of the loop takes at
least one of them. -/
def due (currTime : ℕ) : ℕ :=
  (s.sortLink.map fun t => currTime + 1 - (s.cbArray t).responseTime).sum

def osSwtmrScan (currTime : ℕ) : Swtmrs :=
  scanLoop c currTime (s.due currTime) s

/-- `OsSwtmrTask` reads a message. -/
def swtmrTaskRead : Swtmrs :=
  match s.handlerQueue with
  | [] => s
  | item :: rest => { s with handlerQueue := rest, handling := some item }

/-- `OsSwtmrTask` handles the message, up to the call of the handler. -/
def swtmrTaskHandle : Swtmrs :=
  match s.handling with
  | none => s
  | some item =>
    let s := { s with handling := none }
    if item.handler = none ∨ item.swtmrID ≥ c.maxTimerID then s
    else
      let t := item.swtmrID % c.swtmrLimit
      if (s.cbArray t).usTimerID ≠ item.swtmrID then s
      else if (s.cbArray t).ucMode = .once then s.osSwtmrDelete c t
      else s

/-- `LOS_SwtmrCreate` up to the end of its critical section; `none` stands for a mode that does not
exist, and `hasRet` says whether there is an address for the identifier. -/
def swtmrCreateTake (interval : ℕ) (mode : Option SwtmrMode) (handler : Option ℕ)
    (hasRet : Bool) (arg : ℕ) : Except SwtmrErrno (Swtmrs × SwtmrNew) :=
  if interval = 0 then .error .intervalNotSuited
  else
    match mode, handler with
    | none, _ => .error .modeInvalid
    | some _, none => .error .ptrNull
    | some mode, some handler =>
      if !hasRet then .error .retPtrNull
      else
        match s.freeList with
        | none => .error .maxSize
        | some t =>
          .ok ({ s with freeList := (s.cbArray t).pstNext }, ⟨t, interval, mode, handler, arg⟩)

/-- The rest of `LOS_SwtmrCreate`, with the interrupts enabled -/
def swtmrCreateFill (new : SwtmrNew) : Swtmrs × ℕ :=
  (s.modifyCB new.block fun cb =>
    { cb with
      pfnHandler := some new.handler
      ucMode := new.mode
      uwInterval := new.interval
      pstNext := none
      uwArg := new.arg
      ucState := .created
      ucOverrun := 0
      responseTime := sortLinkInvalidTime }, (s.cbArray new.block).usTimerID)

/-- `LOS_SwtmrCreate` without a step between its two halves -/
def losSwtmrCreate (interval : ℕ) (mode : Option SwtmrMode) (handler : Option ℕ)
    (hasRet : Bool) (arg : ℕ) : Swtmrs × Except SwtmrErrno ℕ :=
  match s.swtmrCreateTake interval mode handler hasRet arg with
  | .error e => (s, .error e)
  | .ok (s, new) => ((s.swtmrCreateFill new).1, .ok (s.swtmrCreateFill new).2)

/-- The checks with which `LOS_SwtmrStart`, `LOS_SwtmrStop` and `LOS_SwtmrDelete` find the control
block of an identifier -/
def findCB (swtmrId : ℕ) : Except SwtmrErrno ℕ :=
  if swtmrId ≥ c.maxTimerID then .error .idInvalid
  else if (s.cbArray (swtmrId % c.swtmrLimit)).usTimerID ≠ swtmrId then .error .notCreated
  else .ok (swtmrId % c.swtmrLimit)

def losSwtmrStart (swtmrId currTime : ℕ) : Swtmrs × SwtmrErrno :=
  match s.findCB c swtmrId with
  | .error e => (s, e)
  | .ok t =>
    match (s.cbArray t).ucState with
    | .unused => (s, .notCreated)
    | .ticking => (((s.osSwtmrStop t).modifyCB t fun cb =>
        { cb with startTime := currTime }).osSwtmrStart c t, .ok)
    | .created => ((s.modifyCB t fun cb => { cb with startTime := currTime }).osSwtmrStart c t, .ok)

def losSwtmrStop (swtmrId : ℕ) : Swtmrs × SwtmrErrno :=
  match s.findCB c swtmrId with
  | .error e => (s, e)
  | .ok t =>
    match (s.cbArray t).ucState with
    | .unused => (s, .notCreated)
    | .created => (s, .notStarted)
    | .ticking => (s.osSwtmrStop t, .ok)

def losSwtmrDelete (swtmrId : ℕ) : Swtmrs × SwtmrErrno :=
  match s.findCB c swtmrId with
  | .error e => (s, e)
  | .ok t =>
    match (s.cbArray t).ucState with
    | .unused => (s, .notCreated)
    | .ticking => ((s.osSwtmrStop t).osSwtmrDelete c t, .ok)
    | .created => (s.osSwtmrDelete c t, .ok)

end

end Swtmrs

inductive SwtmrOp
  | swtmrCreate (interval : ℕ) (mode : Option SwtmrMode) (handler : Option ℕ) (hasRet : Bool)
      (arg : ℕ)
  | swtmrStart (swtmrId currTime : ℕ)
  | swtmrStop (swtmrId : ℕ)
  | swtmrDelete (swtmrId : ℕ)
  | swtmrScan (currTime : ℕ)
  | swtmrTaskRead
  | swtmrTaskHandle
deriving DecidableEq

namespace Swtmrs

def exec (c : SwtmrConfig) (s : Swtmrs) : SwtmrOp → Swtmrs
  | .swtmrCreate interval mode handler hasRet arg =>
    (s.losSwtmrCreate interval mode handler hasRet arg).1
  | .swtmrStart swtmrId currTime => (s.losSwtmrStart c swtmrId currTime).1
  | .swtmrStop swtmrId => (s.losSwtmrStop c swtmrId).1
  | .swtmrDelete swtmrId => (s.losSwtmrDelete c swtmrId).1
  | .swtmrScan currTime => s.osSwtmrScan c currTime
  | .swtmrTaskRead => s.swtmrTaskRead
  | .swtmrTaskHandle => s.swtmrTaskHandle c

/-- When an operation can come. The timer task reads a message when it has handled the last one. No
deadline reaches the end of the 64-bit clock, whose last value is reserved. -/
def Enabled (c : SwtmrConfig) (s : Swtmrs) : SwtmrOp → Prop
  | .swtmrStart swtmrId currTime =>
      currTime + c.sysTickToCycle (s.cbArray (swtmrId % c.swtmrLimit)).uwInterval <
        sortLinkInvalidTime
  | .swtmrScan currTime => ∀ t ∈ s.sortLink,
      currTime + c.sysTickToCycle (s.cbArray t).uwInterval < sortLinkInvalidTime
  | .swtmrTaskRead => s.handling = none
  | _ => True

/-- Runs after `OsSwtmrInit` -/
def machine (c : SwtmrConfig) : Machine Swtmrs SwtmrOp where
  init s := s = osSwtmrInit c
  allowed := Enabled c
  step := exec c

instance (c : SwtmrConfig) (s : Swtmrs) (op : SwtmrOp) : Decidable ((machine c).allowed s op) := by
  cases op <;> unfold machine Enabled <;> infer_instance

end Swtmrs

end LiteOS.Timer
