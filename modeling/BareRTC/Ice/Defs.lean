import BareRTC.Re.List
import BareRTC.Sdp.Defs

/-!
# ICE media objects (`re/src/ice`: `ice.h`, `util.c`, `cand.c`, `candpair.c`, `comp.c`)

A media object has the candidates of both sides, and the candidate pairs in two lists: `checkl`, the
pairs to check, and `validl`, the pairs whose check succeeded. Both are kept in the order of the
pair priority, which is computed once and stored in the pair.

Objects are known by the number of their allocation. Candidates never change after they are added,
so a pair has its candidates as values and two pointers are the same if the numbers are. Pairs
change under the lists they are in: `pairs` has their contents and the lists have their numbers. A
pair is in one of the lists until it is destroyed. Memory is always available; addresses are of
family `INET` or `INET6`, so that `sa_cmp` is equality.
-/

namespace BareRTC.Ice

open Sdp (Sa Addr)

inductive Role
  | unknown | controlling | controlled
  deriving DecidableEq, Repr

inductive CandType
  | host | srflx | prflx | relay
  deriving DecidableEq, Repr

inductive PairState
  | frozen | waiting | inprogress | succeeded | failed
  deriving DecidableEq, Repr

inductive ChecklState
  | null | running | completed | failed
  deriving DecidableEq, Repr

structure Base where
  id : Nat
  addr : Sa
  deriving DecidableEq, Repr

structure Cand where
  id : Nat
  type : CandType
  prio : UInt32
  foundation : Bytes
  compid : UInt32
  addr : Sa
  base : Option Base
  deriving DecidableEq, Repr

/-- `struct ice_candpair`; `comp` is the id of the component and `ctConn` the STUN transaction. -/
structure Pair where
  comp : UInt32
  lcand : Cand
  rcand : Cand
  valid : Bool
  nominated : Bool
  state : PairState
  pprio : UInt64
  ctConn : Option Nat
  err : Option Errno
  scode : UInt16
  deriving DecidableEq, Repr

structure Comp where
  id : UInt32
  lport : UInt16
  cpSel : Option Nat
  concluded : Bool
  keepalive : Bool
  deriving DecidableEq, Repr

/-- A Binding request: its transaction, destination and the attributes that `icem_conncheck_send`
gives it beside the user name. -/
structure Request where
  tid : Nat
  dst : Sa
  prio : UInt32
  role : Role
  tiebrk : UInt64
  useCand : Bool
  deriving DecidableEq, Repr

/-- `struct icem`. `allocs` is the number of objects and `sends` the number of requests so far; `tx`
are the requests that went out and `calls` the arguments of the calls of the connectivity check
handler. -/
structure Icem where
  lcandl : List Cand
  rcandl : List Cand
  checkl : List Nat
  validl : List Nat
  pairs : Nat → Pair
  tiebrk : UInt64
  lite : Bool
  lrole : Role
  tmrPace : Bool
  state : ChecklState
  compl : List Comp
  chkh : Bool
  allocs : Nat
  sends : Nat
  tx : List Request
  calls : List (Option Errno × Bool)

/-- What is decided outside: the error of `turnc_add_chan` or `stun_request` for each request, and
the foundation of each candidate, which is a hash or random and only compared. -/
structure Env where
  send : Nat → Option Errno
  foundation : Nat → Bytes

def typePrio : CandType → UInt32
  | .host => 126
  | .srflx => 100
  | .prflx => 110
  | .relay => 0

def iceCandCalcPrio (type : CandType) (pref : UInt16) (compid : UInt32) : UInt32 :=
  typePrio type <<< 24 ||| pref.toUInt32 <<< 8 ||| (256 - compid)

/-- Of the candidates of the controlling and the controlled agent -/
def iceCalcPairPrio (g d : UInt32) : UInt64 :=
  ((min g d).toUInt64 <<< 32) + 2 * (max g d).toUInt64 + (if d < g then 1 else 0)

def iceSwitchLocalRole (icem : Icem) : Icem :=
  { icem with lrole := if icem.lrole = .controlling then .controlled else .controlling }

def iceDetermineRole (role : Role) (icem : Icem) : Icem :=
  { icem with lrole := if icem.lite then .controlling else role }

/-! ## Lists -/

/-- What the handler of `ice_list_unique` says of two elements. -/
inductive Drop
  | none | first | second

/-- The inner loop of `ice_list_unique`: if the first element is to go, and what is left of the
rest. -/
def iceListUnique.scan {α : Type} (uh : α → α → Drop) (a : α) : List α → Bool × List α
  | [] => (false, [])
  | b :: l =>
    match uh a b with
    | .none => ((scan uh a l).1, b :: (scan uh a l).2)
    | .first => (true, b :: l)
    | .second => scan uh a l

/-- The outer loop; it has at most as many rounds as the list has elements. -/
def iceListUnique.loop {α : Type} (uh : α → α → Drop) : Nat → List α → List α
  | n + 1, a :: l =>
    if (scan uh a l).1 then loop uh n (scan uh a l).2 else a :: loop uh n (scan uh a l).2
  | _, l => l

def iceListUnique {α : Type} (uh : α → α → Drop) (l : List α) : List α := iceListUnique.loop uh l.length l

/-! ## Candidates -/

def icemCompFind (icem : Icem) (compid : UInt32) : Option Comp := icem.compl.find? (·.id = compid)

def icemCandFind (lst : List Cand) (compid : UInt32) (addr : Sa) : Option Cand :=
  lst.find? fun cand => (compid = 0 ∨ cand.compid = compid) ∧ cand.addr = addr

def candAlloc (env : Env) (type : CandType) (compid prio : UInt32) (addr : Sa) (base : Option Base)
    (icem : Icem) : Icem :=
  let cand : Cand := { id := icem.allocs, type, prio, foundation := env.foundation icem.allocs, compid, addr, base }
  { icem with lcandl := icem.lcandl ++ [cand], allocs := icem.allocs + 1 }

/-- With `icem_lcand_add_base`; the base is the candidate itself. -/
def icemCandAdd (env : Env) (compid : UInt32) (lprio : UInt16) (addr : Sa) (icem : Icem) : Icem :=
  match icemCompFind icem compid with
  | none => icem
  | some comp =>
    let addr := { addr with port := comp.lport }
    candAlloc env .host compid (iceCandCalcPrio .host lprio compid) addr (some ⟨icem.allocs, addr⟩) icem

def icemLcandAdd (env : Env) (base : Cand) (type : CandType) (addr : Sa) (icem : Icem) : Icem :=
  candAlloc env type base.compid (iceCandCalcPrio type 0 base.compid) addr (some ⟨base.id, base.addr⟩) icem

/-- Also `icem_rcand_add_prflx`, with type `PRFLX` -/
def icemRcandAdd (env : Env) (type : CandType) (compid prio : UInt32) (addr : Sa) (icem : Icem) :
    Cand × Icem :=
  let rcand : Cand := { id := icem.allocs, type, prio, foundation := env.foundation icem.allocs,
                        compid, addr, base := none }
  (rcand, { icem with rcandl := icem.rcandl ++ [rcand], allocs := icem.allocs + 1 })

/-- The candidates that go are not used elsewhere. -/
def icemCandRedundElim (icem : Icem) : Icem := { icem with lcandl := iceListUnique uniqueHandler icem.lcandl }
where
  uniqueHandler (c1 c2 : Cand) : Drop :=
    if c1.base.map (·.id) ≠ c2.base.map (·.id) ∨ c1.addr ≠ c2.addr then .none
    else if c1.prio < c2.prio then .first else .second

/-! ## Candidate pairs -/

def Icem.set (cp : Nat) (f : Pair → Pair) (icem : Icem) : Icem :=
  { icem with pairs := Function.update icem.pairs cp (f (icem.pairs cp)) }

def pairPrio (lrole : Role) (lcand rcand : Cand) : UInt64 :=
  if lrole = .controlling then iceCalcPairPrio lcand.prio rcand.prio
  else iceCalcPairPrio rcand.prio lcand.prio

def candpairSetPprio (lrole : Role) (cp : Pair) : Pair := { cp with pprio := pairPrio lrole cp.lcand cp.rcand }

/-- The walk of `list_add_sorted` from the tail of the list. -/
def listAddSorted.slot (pairs : Nat → Pair) (cp : Nat) : List Nat → List Nat
  | [] => [cp]
  | cp0 :: l => if (pairs cp).pprio < (pairs cp0).pprio then cp :: cp0 :: l else cp0 :: slot pairs cp l

def listAddSorted (pairs : Nat → Pair) (cp : Nat) (l : List Nat) : List Nat :=
  (listAddSorted.slot pairs cp l.reverse).reverse

def icemCandpairAlloc (lcand rcand : Cand) (icem : Icem) : Option Errno × Icem :=
  match icemCompFind icem lcand.compid with
  | none => (some .ENOENT, icem)
  | some comp =>
    let cp := candpairSetPprio icem.lrole
      { comp := comp.id, lcand, rcand, valid := false, nominated := false, state := .frozen, pprio := 0,
        ctConn := none, err := none, scode := 0 }
    let pairs := Function.update icem.pairs icem.allocs cp
    (none, { icem with pairs, allocs := icem.allocs + 1, checkl := listAddSorted pairs icem.allocs icem.checkl })

def icemCandpairClone (cp0 : Nat) (lcand rcand : Cand) (icem : Icem) : Nat × Icem :=
  let pairs := Function.update icem.pairs icem.allocs { icem.pairs cp0 with lcand, rcand, ctConn := none }
  (icem.allocs, { icem with pairs, allocs := icem.allocs + 1, checkl := listAddSorted pairs icem.allocs icem.checkl })

/-- The pairs after the loop of `icem_candpair_prio_order` over the check list. -/
def icemCandpairPrioOrder.pairs (icem : Icem) (cp : Nat) : Pair :=
  if cp ∈ icem.checkl then candpairSetPprio icem.lrole (icem.pairs cp) else icem.pairs cp

def icemCandpairPrioOrder (icem : Icem) : Icem :=
  { icem with pairs := icemCandpairPrioOrder.pairs icem, checkl := listSort sortHandler icem.checkl }
where
  /-- `sort_handler` -/
  sortHandler (cp1 cp2 : Nat) : Bool :=
    (icemCandpairPrioOrder.pairs icem cp2).pprio ≤ (icemCandpairPrioOrder.pairs icem cp1).pprio

def Pair.isCompleted (cp : Pair) : Bool := cp.state = .failed ∨ cp.state = .succeeded

def Pair.setState (state : PairState) (cp : Pair) : Pair :=
  if cp.state = state ∨ cp.isCompleted then cp else { cp with state }

def icemCandpairCancel (cp : Nat) (icem : Icem) : Icem := icem.set cp ({ · with ctConn := none })

def icemCandpairMakeValid (cp : Nat) (icem : Icem) : Icem :=
  let icem := icem.set cp fun p => { p with err := none, scode := 0, valid := true }.setState .succeeded
  { icem with checkl := icem.checkl.erase cp, validl := listAddSorted icem.pairs cp (icem.validl.erase cp) }

def icemCandpairFailed (cp : Nat) (err : Option Errno) (scode : UInt16) (icem : Icem) : Icem :=
  icem.set cp fun p => { p with err, scode, valid := false }.setState .failed

def icemCandpairsFlush (pairs : Nat → Pair) (type : CandType) (compid : UInt32) (l : List Nat) : List Nat :=
  l.filter fun cp => (pairs cp).lcand.compid ≠ compid ∨ (pairs cp).lcand.type ≠ type

def icemCandpairFind (pairs : Nat → Pair) (lst : List Nat) (lcand rcand : Option Cand) : Option Nat :=
  lst.find? fun cp => (∀ c ∈ lcand, (pairs cp).lcand.id = c.id) ∧ ∀ c ∈ rcand, (pairs cp).rcand.id = c.id

/-- Any component if `compid` is `0` -/
def icemCandpairFindSt (pairs : Nat → Pair) (lst : List Nat) (compid : UInt32) (state : PairState) :
    Option Nat :=
  lst.find? fun cp => (compid = 0 ∨ (pairs cp).lcand.compid = compid) ∧ (pairs cp).state = state

def icemCandpairFindCompid (pairs : Nat → Pair) (lst : List Nat) (compid : UInt32) : Option Nat :=
  lst.find? fun cp => (pairs cp).lcand.compid = compid

def icemCandpairFindRcand (icem : Icem) (rcand : Cand) : Option Nat :=
  (icemCandpairFind icem.pairs icem.checkl none (some rcand)).or
    (icemCandpairFind icem.pairs icem.validl none (some rcand))

def icemCandpairCmpFnd (cp1 cp2 : Pair) : Bool :=
  cp1.lcand.foundation = cp2.lcand.foundation ∧ cp1.rcand.foundation = cp2.rcand.foundation

def icemLcandFindChecklist (icem : Icem) (compid : UInt32) : Option Cand :=
  let cp := icem.checkl.find? fun cp => (icem.pairs cp).lcand.compid = compid ∧
    ((icem.pairs cp).lcand.type = .host ∨ (icem.pairs cp).lcand.type = .relay)
  cp.map fun cp => (icem.pairs cp).lcand

/-! ## Components -/

def Icem.setComp (compid : UInt32) (f : Comp → Comp) (icem : Icem) : Icem :=
  { icem with compl := icem.compl.map fun comp => if comp.id = compid then f comp else comp }

/-- Components have ids from `1` to `255`. -/
def icemCompAdd (id : UInt32) (lport : UInt16) (icem : Icem) : Icem :=
  if (icemCompFind icem id).isSome ∨ id < 1 ∨ 255 < id then icem
  else { icem with compl := icem.compl ++ [{ id, lport, cpSel := none, concluded := false, keepalive := false }] }

def icemCompSetSelected (compid : UInt32) (cp : Nat) (icem : Icem) : Icem :=
  icem.setComp compid ({ · with cpSel := some cp })

def icemCompKeepalive (compid : UInt32) (enable : Bool) (icem : Icem) : Icem :=
  icem.setComp compid ({ · with keepalive := enable })

end BareRTC.Ice
