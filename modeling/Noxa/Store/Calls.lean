import Noxa.Store.Keys

/-!
# The store as a machine

Every call is one transaction: it is performed as a whole or leaves the database as it was. The
advisory lock and the row locks put the transactions of concurrent callers in some order, so a run
is a list of calls. An input carries the call and what it draws from outside, and whether the
transaction is given up for reasons of its own, such as a lock timeout. Between calls the world may
change in any way: other parts of the server add and end devices and change groups.

## Main definitions

* `Call`, `Reply`, `Input` — the calls
* `perform` — one transaction
* `step` — one transaction or its failure
-/

namespace Noxa.Store

open Directory Admission

variable [Setting]

inductive Call
  | beginOlmAttempt (a : Source) (m : Manifest)
  | putOlmPart (a : Source) (id : String) (index : ℕ) (data : Bytes)
  | finalizeOlmAttempt (a : Source) (id : String)
  | abortOlmAttempt (a : Source) (m : Manifest)
  | expireOlmAttempts
  | retireOlmReceipt (a : Source) (id digest : String)
  | publishOlmBundle (principal id server : String) (b : Bundle)
  | resetOlmAccount (a : Source) (r : Reset) (b : Bundle)
  | claimOlmKey (principal id target targetID requestID : String) (claimUntil : Int)
      (server : String) (expectedEpoch : List Int)
  | ackOlmDelivery (a : Source) (id digest : String)
  | closeOlmKeys (a : Source) (keys : List String)
  | expirePendingOlmControls
  /-- What other calls do to devices, rosters and groups. -/
  | other (world : World)

inductive Reply
  | done
  | failed (e : Err)
  | receipt (r : Receipt)
  | finalized (f : Finalized)
  | retiredThrough (n : Int)
  | reset (r : ResetReceipt)
  | claimed (c : OlmClaim)
  | lifecycles (l : List OlmKeyLifecycle)

structure Input where
  call : Call
  env : Env
  aborted : Bool := false

/-- One transaction. -/
def perform (db : Db) (env : Env) : Call → Except Err (Db × Reply)
  | .beginOlmAttempt a m =>
    (beginOlmAttempt db env a m).map fun (l, r) => ({ db with ledger := l }, .receipt r)
  | .putOlmPart a id index data =>
    (putOlmPart db env a id index data).map fun (l, e) =>
      ({ db with ledger := l }, e.elim .done .failed)
  | .finalizeOlmAttempt a id =>
    (finalizeOlmAttempt db env a id).map fun (db', f) => (db', .finalized f)
  | .abortOlmAttempt a m =>
    (abortOlmAttempt db env a m).map fun (l, r) => ({ db with ledger := l }, .receipt r)
  | .expireOlmAttempts =>
    .ok ({ db with ledger := expireOlmAttempts db.ledger env 200 "" }, .done)
  | .retireOlmReceipt a id digest =>
    (retireOlmReceipt db a id digest).map fun (l, n) => ({ db with ledger := l }, .retiredThrough n)
  | .publishOlmBundle principal id server b =>
    (publishOlmBundle db env principal id server b).map fun db' => (db', .done)
  | .resetOlmAccount a r b =>
    (resetOlmAccount db env a r b).map fun (db', out) => (db', .reset out)
  | .claimOlmKey principal id target targetID requestID claimUntil server expectedEpoch =>
    (claimOlmKey db env principal id target targetID requestID claimUntil server expectedEpoch).map
      fun (db', c) => (db', .claimed c)
  | .ackOlmDelivery a id digest => (ackOlmDelivery db a id digest).map fun db' => (db', .done)
  | .closeOlmKeys a keys => (closeOlmKeys db env a keys).map fun (db', l) => (db', .lifecycles l)
  | .expirePendingOlmControls => .ok (expirePendingOlmControls db env, .done)
  | .other world => .ok ({ db with world := world }, .done)

def step (db : Db) (i : Input) : Db × Reply :=
  if i.aborted then (db, .failed .sql)
  else match perform db i.env i.call with
    | .error e => (db, .failed e)
    | .ok result => result

/-- A step performs its call or changes nothing. -/
theorem step_cases (db : Db) (i : Input) :
    (∃ e, step db i = (db, .failed e)) ∨ perform db i.env i.call = .ok (step db i) := by
  unfold step
  split
  · exact .inl ⟨_, rfl⟩
  split
  · exact .inl ⟨_, rfl⟩
  · rename_i result hres
    exact .inr hres

end Noxa.Store
