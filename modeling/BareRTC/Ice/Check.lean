import BareRTC.Ice.Defs

/-!
# Connectivity checks (`re/src/ice`: `connchk.c`, `chklist.c`, `stunsrv.c`, `icem.c`;
`re/src/stun/ctrans.c`)

`pace_next` starts the next check and then looks if the check list is done. A check that cannot be
sent fails at once and calls `pace_next` again; a check list that is done sends once more for every
component, and calls for the next check. The functions that are part of this circle are given the
next one as an argument, and `scheduleCheck` closes it with as many rounds as there can be.

The media object is driven by its user, by the pace timer, by the answers to its requests (`Resp`,
with the time-out of a transaction as an error) and by the requests of the other side (`BindReq`).
The user's connectivity check handler does not call back.
-/

namespace BareRTC.Ice

open Sdp (Sa Addr)

/-! ## Checks -/

def icemConncheckSend (env : Env) (cp : Nat) (useCand : Bool) (icem : Icem) : Option Errno × Icem :=
  let icem := icem.set cp (Pair.setState .inprogress)
  if icem.lrole = .unknown ∨ icem.lrole = .controlled ∧ useCand then (some .EINVAL, icem)
  else if (icem.pairs cp).ctConn.isSome then (some .EBUSY, icem)
  else
    let tid := icem.sends
    let icem := { icem with sends := tid + 1 }
    match env.send tid with
    | some err => (some err, icem)
    | none =>
      let req : Request :=
        { tid, dst := (icem.pairs cp).rcand.addr, role := icem.lrole, tiebrk := icem.tiebrk, useCand,
          prio := iceCandCalcPrio .prflx 0 (icem.pairs cp).lcand.compid }
      (none, { icem.set cp ({ · with ctConn := some tid }) with tx := icem.tx ++ [req] })

def Icem.call (err : Option Errno) (icem : Icem) : Icem :=
  if icem.chkh then { icem with calls := icem.calls ++ [(err, decide (icem.lrole = .controlling))] } else icem

def abortIce (err : Errno) (icem : Icem) : Icem :=
  { ({ icem with state := .failed, tmrPace := false }).call (some err) with chkh := false }

def iscompleted (icem : Icem) : Bool := icem.checkl.all fun cp => (icem.pairs cp).isCompleted

def concludingIce (env : Env) (schedule : Icem → Icem) (compid : UInt32) (icem : Icem) : Icem :=
  match icemCompFind icem compid with
  | none => icem
  | some comp =>
    if comp.concluded then icem
    else match icemCandpairFindSt icem.pairs icem.validl compid .succeeded with
      | none => icem
      | some cp =>
        let icem := icemCompSetSelected compid cp icem
        let icem := (icemConncheckSend env cp (icem.lrole = .controlling) icem).2
        (schedule icem).setComp compid ({ · with concluded := true })

def icemChecklistUpdate.loop (env : Env) (schedule : Icem → Icem) :
    List UInt32 → Icem → Option Errno × Icem
  | [], icem => (none, icem)
  | compid :: ids, icem =>
    match icemCandpairFindCompid icem.pairs icem.validl compid with
    | none => (some .ENOENT, icem)
    | some _ =>
      let icem := concludingIce env schedule compid icem
      let sel := (icemCompFind icem compid).bind (·.cpSel)
      loop env schedule ids (if sel.isSome then icemCompKeepalive compid true icem else icem)

def icemChecklistUpdate (env : Env) (schedule : Icem → Icem) (icem : Icem) : Icem :=
  if ¬ iscompleted icem then icem
  else
    let (err, icem) := icemChecklistUpdate.loop env schedule (icem.compl.map (·.id)) icem
    { icem with state := if err.isSome then .failed else .completed }.call err

def paceNextWith (env : Env) (schedule : Icem → Icem) (icem : Icem) : Icem :=
  if icem.state ≠ .running then icem
  else
    let icem := schedule icem
    if icem.state = .failed then icem else icemChecklistUpdate env schedule icem

def doCheck (env : Env) (pace : Icem → Icem) (cp : Nat) (icem : Icem) : Icem :=
  match icemConncheckSend env cp false icem with
  | (none, icem) => icem
  | (some err, icem) =>
    let icem := icemCandpairFailed cp (some err) 0 icem
    if err = .ENOMEM then abortIce err icem else pace icem

def nextCheck (icem : Icem) : Option Nat :=
  (icemCandpairFindSt icem.pairs icem.checkl 0 .waiting).or (icemCandpairFindSt icem.pairs icem.checkl 0 .frozen)

/-- `icem_conncheck_schedule_check` for a number of checks that are refused -/
def scheduleCheck (env : Env) : Nat → Icem → Icem
  | 0, icem => icem
  | n + 1, icem =>
    match nextCheck icem with
    | some cp => doCheck env (paceNextWith env (scheduleCheck env n)) cp icem
    | none => icem

/-- No pair is checked twice. -/
def icemConncheckScheduleCheck (env : Env) (icem : Icem) : Icem := scheduleCheck env (icem.checkl.length + 1) icem

def paceNext (env : Env) (icem : Icem) : Icem := paceNextWith env (icemConncheckScheduleCheck env) icem

/-! ## Answers -/

def constructValidPair (cp : Nat) (mapped dest : Sa) (icem : Icem) : Option Nat × Icem :=
  let p := icem.pairs cp
  match icemCandFind icem.lcandl p.lcand.compid mapped, icemCandFind icem.rcandl p.rcand.compid dest with
  | some lcand, some rcand =>
    let icem := icemCandpairMakeValid cp icem
    if lcand.id ≠ p.lcand.id ∨ rcand.id ≠ p.rcand.id then
      match icemCandpairFind icem.pairs icem.validl (some lcand) (some rcand) with
      | some cp2 => (some cp2, icem)
      | none =>
        let (cp2, icem) := icemCandpairClone cp lcand rcand icem
        (some cp2, icemCandpairMakeValid cp2 icem)
    else (some cp, icem)
  | _, _ => (none, icem)

def handleSuccess (env : Env) (cp : Nat) (laddr : Sa) (icem : Icem) : Icem :=
  let p := icem.pairs cp
  let icem := if (icemCandFind icem.lcandl p.lcand.compid laddr).isSome then icem
    else icemLcandAdd env p.lcand .prflx laddr icem
  match constructValidPair cp laddr p.rcand.addr icem with
  | (none, icem) => icem
  | (some cp, icem) =>
    let icem := icemCandpairMakeValid cp icem
    (icemCompSetSelected (icem.pairs cp).comp cp icem).set cp ({ · with nominated := true })

/-- What `stunc_resp_handler` is called with: the error of the transaction, or the code of the
answer and its `XOR-MAPPED-ADDRESS`. -/
structure Resp where
  err : Option Errno
  scode : UInt16
  mapped : Option Sa
  deriving DecidableEq, Repr

/-- `stunc_resp_handler` before `pace_next` -/
def handleResp (env : Env) (cp : Nat) (resp : Resp) (icem : Icem) : Icem :=
  match resp.err with
  | some err => icemCandpairFailed cp (some err) resp.scode icem
  | none =>
    if resp.scode = 0 then
      match resp.mapped with
      | none => icemCandpairFailed cp (some .EBADMSG) 0 icem
      | some laddr => handleSuccess env cp laddr icem
    else if resp.scode = 487 then (icemConncheckSend env cp false (iceSwitchLocalRole icem)).2
    else icemCandpairFailed cp none resp.scode icem

def stuncRespHandler (env : Env) (cp : Nat) (resp : Resp) (icem : Icem) : Icem :=
  paceNext env (handleResp env cp resp icem)

def transaction (icem : Icem) (tid : Nat) : Option Nat :=
  (icem.checkl ++ icem.validl).find? fun cp => (icem.pairs cp).ctConn = some tid

/-- The end of a transaction: `completed`, which forgets it and then calls the handler. -/
def ctransCompleted (env : Env) (tid : Nat) (resp : Resp) (icem : Icem) : Icem :=
  match transaction icem tid with
  | none => icem
  | some cp => stuncRespHandler env cp resp (icemCandpairCancel cp icem)

/-! ## Requests -/

/-- What the checks of `FINGERPRINT`, `MESSAGE-INTEGRITY` and `USERNAME` come to. -/
inductive Auth
  | ok | discard | badmsg | unauth
  deriving DecidableEq, Repr

/-- A Binding request as `icem_stund_recv` reads it. -/
structure BindReq where
  auth : Auth
  controlled : Option UInt64
  controlling : Option UInt64
  priority : Option UInt32
  useCand : Bool
  deriving DecidableEq, Repr

/-- The answer: `stun_reply` with the address of the sender, or `stunsrv_ereply` with a code. -/
inductive Reply
  | none
  | success (mapped : Sa)
  | error (scode : UInt16)
  deriving DecidableEq, Repr

def triggeredCheck (env : Env) (lcand rcand : Cand) (icem : Icem) : Icem :=
  match icemCandpairFind icem.pairs icem.checkl (some lcand) (some rcand) with
  | none => icem
  | some cp =>
    match (icem.pairs cp).state with
    | .failed => (icemConncheckSend env cp false (icem.set cp (Pair.setState .waiting))).2
    | .frozen | .waiting => (icemConncheckSend env cp false icem).2
    | .inprogress | .succeeded => icem

/-- The remote candidate with the address of the sender, which is added if there is none. -/
def rcandOf (env : Env) (compid : UInt32) (src : Sa) (prio : UInt32) (icem : Icem) : Cand × Icem :=
  match icemCandFind icem.rcandl compid src with
  | some rcand => (rcand, icem)
  | none => icemRcandAdd env .prflx compid prio src icem

def handleStunFull (env : Env) (compid : UInt32) (src : Sa) (prio : UInt32) (useCand : Bool)
    (icem : Icem) : Icem :=
  let (rcand, icem) := rcandOf env compid src prio icem
  let cp := icemCandpairFindRcand icem rcand
  match (cp.map fun cp => (icem.pairs cp).lcand).or (icemLcandFindChecklist icem compid) with
  | none => icem
  | some lcand =>
    let icem := triggeredCheck env lcand rcand icem
    match cp.or (icemCandpairFindRcand icem rcand) with
    | none => icem
    | some cp =>
      if useCand ∧ icem.lrole = .controlled ∧ (icem.pairs cp).state = .succeeded then
        icem.set cp ({ · with nominated := true })
      else icem

/-- The role of the sender and its tie-breaker; `CONTROLLING` counts if both are there. -/
def BindReq.role (req : BindReq) : Role × UInt64 :=
  match req.controlling, req.controlled with
  | some tiebrk, _ => (.controlling, tiebrk)
  | none, some tiebrk => (.controlled, tiebrk)
  | none, none => (.unknown, 0)

def icemStundRecv (env : Env) (compid : UInt32) (src : Sa) (req : BindReq) (icem : Icem) : Reply × Icem :=
  match req.auth with
  | .discard => (.none, icem)
  | .badmsg => (.error 400, icem)
  | .unauth => (.error 401, icem)
  | .ok =>
    let (rrole, tiebrk) := req.role
    if rrole = icem.lrole ∧ icem.tiebrk < tiebrk then (.error 487, icem)
    else
      let icem := if rrole = icem.lrole then iceSwitchLocalRole icem else icem
      match req.priority with
      | none => (.error 400, icem)
      | some prio => (.success src, handleStunFull env compid src prio req.useCand icem)

/-! ## The user's calls -/

def icemAlloc (full udp : Bool) (role : Role) (tiebrk : UInt64) (lufrag lpwd : Bytes) (chkh : Bool) :
    Except Errno Icem :=
  if tiebrk = 0 ∨ ¬ full ∨ lufrag.length < 4 ∨ lpwd.length < 22 then .error .EINVAL
  else if ¬ udp then .error .EPROTONOSUPPORT
  else
    let cand : Cand := ⟨0, .host, 0, [], 0, Sa.init, none⟩
    .ok { lcandl := [], rcandl := [], checkl := [], validl := [],
          pairs := fun _ => ⟨0, cand, cand, false, false, .frozen, 0, none, none, 0⟩,
          tiebrk, lite := false, lrole := role, tmrPace := false, state := .null, compl := [], chkh,
          allocs := 0, sends := 0, tx := [], calls := [] }

def sameAf : Addr → Addr → Bool
  | .inet _, .inet _ | .inet6 _, .inet6 _ => true
  | _, _ => false

def candpairsForm.loop : List (Cand × Cand) → Icem → Option Errno × Icem
  | [], icem => (none, icem)
  | (lcand, rcand) :: l, icem =>
    if lcand.compid ≠ rcand.compid ∨ ¬ sameAf lcand.addr.addr rcand.addr.addr then loop l icem
    else match icemCandpairAlloc lcand rcand icem with
      | (some err, icem) => (some err, icem)
      | (none, icem) => loop l icem

def candpairsForm (icem : Icem) : Option Errno × Icem :=
  if icem.lcandl.isEmpty ∨ icem.rcandl.isEmpty then (some .ENOENT, icem)
  else candpairsForm.loop (icem.lcandl.flatMap fun lcand => icem.rcandl.map (lcand, ·)) icem

def candSrflxAddr (c : Cand) : Sa :=
  match c.type, c.base with
  | .srflx, some base => base.addr
  | _, _ => c.addr

def candpairPrune (icem : Icem) : Icem := { icem with checkl := iceListUnique uniqueHandler icem.checkl }
where
  uniqueHandler (cp1 cp2 : Nat) : Drop :=
    let p1 := icem.pairs cp1
    let p2 := icem.pairs cp2
    if p1.comp ≠ p2.comp ∨ candSrflxAddr p1.lcand ≠ candSrflxAddr p2.lcand ∨ p1.rcand.addr ≠ p2.rcand.addr
    then .none
    else if p1.pprio < p2.pprio then .first else .second

def icemChecklistForm (icem : Icem) : Option Errno × Icem :=
  if ¬ icem.checkl.isEmpty then (some .EALREADY, icem)
  else match candpairsForm icem with
    | (some err, icem) => (some err, icem)
    | (none, icem) => (none, candpairPrune (icemCandpairPrioOrder icem))

def icemConncheckStart (icem : Icem) : Option Errno × Icem :=
  match icemChecklistForm icem with
  | (some err, icem) => (some err, icem)
  | (none, icem) => (none, { icem with state := .running, tmrPace := true })

def iceCandpairSetStates (icem : Icem) : Icem :=
  icem.checkl.foldl (fun icem cp => icem.set (icem.checkl.foldl (lower icem.pairs) cp) (Pair.setState .waiting)) icem
where
  lower (pairs : Nat → Pair) (cp cp2 : Nat) : Nat :=
    if icemCandpairCmpFnd (pairs cp) (pairs cp2) ∧ (pairs cp2).lcand.compid < (pairs cp).lcand.compid ∧
      (pairs cp).pprio < (pairs cp2).pprio then cp2 else cp

/-- If the timer runs -/
def paceTimeout (env : Env) (icem : Icem) : Icem :=
  if icem.tmrPace then paceNext env { icem with tmrPace := false } else icem

def icemConncheckContinue (icem : Icem) : Icem := { icem with tmrPace := true }

def icemConncheckStop (env : Env) (err : Option Errno) (icem : Icem) : Icem :=
  let icem := { icem with state := if err.isSome then .failed else .completed, tmrPace := false }
  icemChecklistUpdate env (icemConncheckScheduleCheck env) (icem.checkl.foldl interrupt icem)
where
  interrupt (icem : Icem) (cp : Nat) : Icem :=
    if (icem.pairs cp).isCompleted then icem
    else icemCandpairFailed cp (some .EINTR) 0 (icemCandpairCancel cp icem)

def purgeRelayed (compid : UInt32) (icem : Icem) : Icem :=
  { icem with checkl := icemCandpairsFlush icem.pairs .relay compid icem.checkl,
              validl := icemCandpairsFlush icem.pairs .relay compid icem.validl }

def icemUpdate (icem : Icem) : Icem := icem.compl.foldl purge icem
where
  purge (icem : Icem) (comp : Comp) : Icem :=
    match comp.cpSel with
    | some cp => if (icem.pairs cp).lcand.type ≠ .relay then purgeRelayed comp.id icem else icem
    | none => icem

/-! ## Runs -/

inductive Op
  | compAdd (compid : UInt32) (lport : UInt16)
  | candAdd (compid : UInt32) (lprio : UInt16) (addr : Sa)
  | lcandAdd (base : Nat) (type : CandType) (addr : Sa)
  | rcandAdd (type : CandType) (compid prio : UInt32) (addr : Sa)
  | redundElim
  | setRole (role : Role)
  | lite
  | start
  | setStates
  | pace
  | cont
  | resp (tid : Nat) (resp : Resp)
  | recv (compid : UInt32) (src : Sa) (req : BindReq)
  | stop (err : Option Errno)
  | update
  deriving DecidableEq, Repr

def Icem.step (env : Env) (icem : Icem) : Op → Icem × Reply
  | .compAdd compid lport => (icemCompAdd compid lport icem, .none)
  | .candAdd compid lprio addr => (icemCandAdd env compid lprio addr icem, .none)
  | .lcandAdd base type addr =>
    match icem.lcandl.find? (·.id = base) with
    | some base => (icemLcandAdd env base type addr icem, .none)
    | none => (icem, .none)
  | .rcandAdd type compid prio addr => ((icemRcandAdd env type compid prio addr icem).2, .none)
  | .redundElim => (icemCandRedundElim icem, .none)
  | .setRole role => (iceDetermineRole role icem, .none)
  -- `ice_sdp_decode` of "ice-lite"
  | .lite => ({ icem with lite := true, lrole := .controlling }, .none)
  | .start => ((icemConncheckStart icem).2, .none)
  | .setStates => (iceCandpairSetStates icem, .none)
  | .pace => (paceTimeout env icem, .none)
  | .cont => (icemConncheckContinue icem, .none)
  | .resp tid resp => (ctransCompleted env tid resp icem, .none)
  | .recv compid src req =>
    if (icemCompFind icem compid).isSome then
      let (reply, icem) := icemStundRecv env compid src req icem
      (icem, reply)
    else (icem, .none)
  | .stop err => (icemConncheckStop env err icem, .none)
  | .update => (icemUpdate icem, .none)

end BareRTC.Ice
