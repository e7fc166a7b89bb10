import HyMRPL.Dag.Basic

/-!
# Calls out of the protocol code

The handlers of `process.c` and `rpld_new.c` act through functions of other
files: netlink, the DAO and DAO-ACK senders, the source routing tree and the
adaptive engine. A handler returns its calls as a list, in the order in which it
makes them.
-/

namespace HyMRPL

/-- A call made by a handler. -/
inductive Action
  | nlAddRouteDefault (ifindex : UInt32) (via : In6Addr)
  | nlAddRouteVia (ifindex : UInt32) (dest via : In6Addr)
  | nlDelRouteVia (ifindex : UInt32) (dest : In6Prefix)
  | tInsert (call : TInsert)
  | dagInsertSourceRoutes (ifindex : UInt32) (target : In6Addr)
  | dagProcessDio
  | sendDao (dest : In6Addr)
  | sendDaoAck (dest : In6Addr)
  | restartTrickle (after : ℚ) (period : CDouble)
  | adaptiveNotifyDaoSent
  | adaptiveNotifyParentChange (addr : In6Addr)
  | adaptiveParentChanged
  deriving DecidableEq

/-- The destinations of the DAOs among some calls. -/
def daoDests (acts : List Action) : List In6Addr :=
  acts.filterMap fun
    | .sendDao dest => some dest
    | _ => none

/-- The calls of `t_insert` among some calls. -/
def tInserts (acts : List Action) : List TInsert :=
  acts.filterMap fun
    | .tInsert call => some call
    | _ => none

@[simp] theorem daoDests_append (as bs : List Action) :
    daoDests (as ++ bs) = daoDests as ++ daoDests bs :=
  List.filterMap_append

@[simp] theorem tInserts_append (as bs : List Action) :
    tInserts (as ++ bs) = tInserts as ++ tInserts bs :=
  List.filterMap_append

end HyMRPL
