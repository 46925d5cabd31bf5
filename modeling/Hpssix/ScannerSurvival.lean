import Hpssix.Daemon

/-!
# Hpssix.ScannerSurvival

What a scanner round does with what it holds (`rpc_run_worker` and `do_scanner` in
`hpssixd/src/hpssixd-scanner.c`, `libhpssix/src/hpssix-tmpdb.c`): the client handle
that `clnt_create` may not return, the reply that the stub may not return, and the
connection to the master db.

`rpc_run_worker` destroys the handle on every path and returns 0 for a call that
failed, and `do_scanner` reads the reply after a return of 0; so a round returns
exactly if both workers reply (`scannerRound_returns_iff`).  `hpssix_tmpdb_close`
frees the array of its statements and finalizes none of them, so `sqlite3_close`
is refused: every round that opens the master db leaves its connection open
(`scannerRound_safe_iff`).

* `doScanner_ret` — this is what `doScanner` returns, given how its remote calls
  end;
* `scannerLoop_survives_iff` — the daemon over any sequence of rounds.
-/

namespace Hpssix

open Fate Lite

/-! ## a remote call -/

/-- How a remote call ends: `clnt_create` returns no handle and leaves an errno, the
stub returns no reply, or it returns one. -/
inductive RpcOutcome where
  | unreachable (errno : Int)
  | failed
  | replied (n : Int32)
deriving DecidableEq

/-- The handle that `clnt_create` returns. -/
def RpcOutcome.clnt : RpcOutcome → Option Unit
  | .unreachable _ => none
  | _ => some ()

/-- What the stub returns; it is not called without a handle. -/
def RpcOutcome.reply : RpcOutcome → Option Int32
  | .replied n => some n
  | _ => none

/-- `clnt_destroy` goes through the handle. -/
def clntDestroy (clnt : Option Unit) : Fate Unit := deref clnt

/-- `rpc_run_worker`, with `*result` before it: the return code, and `*result` after. -/
def rpcCall (rpc : RpcOutcome) (result : Option Int32) : Fate (Int × Option Int32) := do
  let (ret, result) :=
    match rpc with
    | .unreachable errno => (errno, result)
    | _ => (0, rpc.reply)
  clntDestroy rpc.clnt
  pure (ret, result)

/-! ## the connection -/

/-- `N_HPSSIX_MDB_SQLS`. -/
def nMdbSqls : Nat := 4

/-- `hpssix_tmpdb_open`, where it succeeds: `tmpdb_prepare_stmt` prepares every
statement. -/
def tmpdbOpen (nSql : Nat) : Handle := Handle.prepare^[nSql] {}

/-- `hpssix_tmpdb_close`: what is left of the connection.  The result of
`sqlite3_close` is not looked at. -/
def tmpdbClose (dbconn : Handle) : Option Handle := dbconn.close.2

/-- **Nothing is finalized**: a connection with statements stays open. -/
theorem tmpdbClose_tmpdbOpen (nSql : Nat) :
    tmpdbClose (tmpdbOpen nSql) = if nSql = 0 then none else some (tmpdbOpen nSql) := by
  have hstmts : (tmpdbOpen nSql).stmts = nSql := by
    rw [tmpdbOpen, Handle.stmts_iterate_prepare, Nat.zero_add]
  simp only [tmpdbClose, Handle.close, hstmts]
  split <;> rfl

/-! ## a round -/

/-- What a round meets, as far as its return value goes; `found` is the number of
records scanned and deleted. -/
structure RoundOutcomes where
  builderRunning : Bool := true
  extractorRunning : Bool := true
  mdbOpen : Int := 0
  datadir : Int := 0
  scan : Int := 0
  found : UInt64 := 1
  builder : RpcOutcome
  extractor : RpcOutcome
  record : Int := 0

/-- The remote calls of `do_scanner`, and the record after them. -/
def scannerRequests (o : RoundOutcomes) : Fate Int := do
  let (ret, result) ← rpcCall o.builder none
  if ret ≠ 0 then pure ret
  else do
    let _nIndexed ← deref result
    let (ret, result) ← rpcCall o.extractor result
    if ret ≠ 0 then pure ret
    else do
      let _nExtracted ← deref result
      pure o.record

/-- `do_scanner` between `hpssix_mdb_open` and `hpssix_mdb_close`. -/
def scannerWork (o : RoundOutcomes) : Fate Int :=
  if o.datadir ≠ 0 then done o.datadir
  else if o.scan ≠ 0 then done o.scan
  else if o.found = 0 then done 0
  else scannerRequests o

/-- `do_scanner`: the return value, and the connections to the master db that are
open.  What an open that fails leaves behind is not followed. -/
def scannerRound (conns : List Handle) (o : RoundOutcomes) : Fate (Int × List Handle) :=
  if !o.builderRunning then done (errInval, conns)
  else if !o.extractorRunning then done (errInval, conns)
  else if o.mdbOpen ≠ 0 then done (errIo, conns)
  else do
    let mdb := tmpdbOpen nMdbSqls
    let ret ← scannerWork o
    pure (ret, conns ++ (tmpdbClose mdb).toList)

/-- The main loop over the rounds that signals start: what each returned. -/
def scannerLoop : List Handle → List RoundOutcomes → Fate (List Int × List Handle)
  | conns, [] => done ([], conns)
  | conns, o :: rounds => do
    let (ret, conns) ← scannerRound conns o
    let (rets, conns) ← scannerLoop conns rounds
    pure (ret :: rets, conns)

namespace RoundOutcomes
variable (o : RoundOutcomes)

/-- The round opens the master db. -/
def Opens : Prop := o.builderRunning = true ∧ o.extractorRunning = true ∧ o.mdbOpen = 0

instance : Decidable o.Opens := inferInstanceAs (Decidable (_ ∧ _))

/-- The connection that the round leaves open. -/
def left : List Handle := if o.Opens then [tmpdbOpen nMdbSqls] else []

/-- The round gets to its remote calls. -/
def Asks : Prop := o.Opens ∧ o.datadir = 0 ∧ o.scan = 0 ∧ o.found ≠ 0

/-- Both workers reply, if they are asked. -/
def Answered : Prop := o.Asks → o.builder.reply.isSome ∧ o.extractor.reply.isSome

/-- A worker that was asked and gave no reply is reported. -/
def Reported (ret : Int) : Prop :=
  o.Asks → o.builder.reply = none ∨ o.extractor.reply = none → ret ≠ 0

end RoundOutcomes

/-- A round that opens the master db leaves the connection. -/
theorem scannerRound_of_opens {o : RoundOutcomes} (h : o.Opens) (conns : List Handle) :
    scannerRound conns o = scannerWork o >>= fun ret => done (ret, conns ++ o.left) := by
  have hleft : (tmpdbClose (tmpdbOpen nMdbSqls)).toList = o.left := by
    rw [tmpdbClose_tmpdbOpen, RoundOutcomes.left, if_pos h]
    rfl
  obtain ⟨hb, he, hopen⟩ := h
  simp [scannerRound, hb, he, hopen, hleft]

/-- Any other round returns and leaves none. -/
theorem scannerRound_of_not_opens {o : RoundOutcomes} (h : ¬ o.Opens) (conns : List Handle) :
    ∃ ret, scannerRound conns o = done (ret, conns) := by
  by_cases hb : o.builderRunning = true
  · by_cases he : o.extractorRunning = true
    · have hopen : o.mdbOpen ≠ 0 := fun hopen => h ⟨hb, he, hopen⟩
      exact ⟨errIo, by simp [scannerRound, hb, he, hopen]⟩
    · exact ⟨errInval, by simp [scannerRound, hb, he]⟩
  · exact ⟨errInval, by simp [scannerRound, hb]⟩

/-! ## the round of `doScanner` -/

/-- How a request ends. -/
def RpcEnv.outcome (keys : CountKeys) (env : RpcEnv) (task : UInt64) (s : Service) : RpcOutcome :=
  if !env.connected then .unreachable 0
  else if !env.delivered then .failed
  else
    match runSvc keys env.launch task s with
    | done (s, _) => if env.replied then .replied s.result else .failed
    | _ => .failed

/-- The request of the protocol is the call with its pointers. -/
theorem rpcRunWorker_reply (keys : CountKeys) (env : RpcEnv) (task : UInt64) (s : Service)
    (result : Option Int32) :
    (rpcRunWorker keys env task s).2.2 = rpcCall (env.outcome keys task s) result := by
  unfold rpcRunWorker RpcEnv.outcome
  cases env.connected with
  | false => rfl
  | true =>
      cases env.delivered with
      | false => rfl
      | true =>
          cases runSvc keys env.launch task s with
          | done a => cases env.replied <;> rfl
          | _ => rfl

/-- The outcomes of a round of the daemons, given what the scan and the record come
to. -/
def RoundEnv.outcomes (env : RoundEnv) (d : Daemons) (scan : Int) (status : WorkStatus)
    (record : Int) : RoundOutcomes where
  builderRunning := env.builderRunning
  extractorRunning := env.extractorRunning
  mdbOpen := env.mdbOpen
  datadir := env.datadir
  scan := scan
  found := status.nScanned + status.nDeleted
  builder := env.builder.outcome builderKeys env.taskId d.builder
  extractor := env.extractor.outcome extractorKeys env.taskId d.extractor
  record := record

@[simp] theorem rpcCall_unreachable (errno : Int) (result : Option Int32) :
    rpcCall (.unreachable errno) result = crash := rfl

@[simp] theorem rpcCall_failed (result : Option Int32) :
    rpcCall .failed result = done (0, none) := rfl

@[simp] theorem rpcCall_replied (n : Int32) (result : Option Int32) :
    rpcCall (.replied n) result = done (0, some n) := rfl

/-- The remote calls come to the record only over two replies. -/
theorem scannerRequests_eq (o : RoundOutcomes) :
    scannerRequests o =
      match o.builder.reply, o.extractor.reply with
      | some _, some _ => done o.record
      | _, _ => crash := by
  unfold scannerRequests
  cases hbuilder : o.builder <;> cases hextractor : o.extractor <;> simp [RpcOutcome.reply]

/-- What `workerReply` makes of a call. -/
theorem workerReply_rpcCall (rpc : RpcOutcome) (result : Option Int32) :
    workerReply (rpcCall rpc result) =
      match rpc.reply with
      | some n => done (.ok n)
      | none => crash := by
  cases rpc <;> rfl

/-- **The round of the daemons** returns what the pointers give. -/
theorem doScanner_ret (site : Site) (env : RoundEnv) (d : Daemons) {scan : Int}
    {status : WorkStatus} {record : Int}
    (hscan : launchScannerProcess site env.query env.launch env.popen
      { id := env.taskId, scannerStart := env.scannerStart } = done (scan, status))
    (hrecord : ∀ status, (recordRound env.record status d.mdb).2 = done record)
    (conns : List Handle) :
    scannerRound conns (env.outcomes d scan status record) =
      (doScanner site env d).ret >>= fun ret =>
        done (ret, conns ++ (env.outcomes d scan status record).left) := by
  have hbuilder := rpcRunWorker_reply builderKeys env.builder env.taskId d.builder none
  have hextractor := rpcRunWorker_reply extractorKeys env.extractor env.taskId d.extractor none
  by_cases hopens : (env.outcomes d scan status record).Opens
  · rw [scannerRound_of_opens hopens]
    obtain ⟨hb, he, hopen⟩ : env.builderRunning = true ∧ env.extractorRunning = true ∧
      env.mdbOpen = 0 := hopens
    unfold doScanner scannerWork
    rw [scannerRequests_eq]
    simp only [hscan, hbuilder, hextractor, workerReply_rpcCall, RoundEnv.outcomes]
    by_cases hdir : env.datadir = 0
    · by_cases hret : scan = 0
      · by_cases hfound : status.nScanned + status.nDeleted = 0
        · simp [hb, he, hopen, hdir, hret, hfound]
        · cases (env.builder.outcome builderKeys env.taskId d.builder).reply <;>
            cases (env.extractor.outcome extractorKeys env.taskId d.extractor).reply <;>
            simp [hb, he, hopen, hdir, hret, hfound, hrecord]
      · simp [hb, he, hopen, hdir, hret]
    · simp [hb, he, hopen, hdir]
  · rw [RoundOutcomes.left, if_neg hopens, List.append_nil]
    unfold doScanner scannerRound
    simp only [RoundEnv.outcomes]
    by_cases hb : env.builderRunning = true
    · by_cases he : env.extractorRunning = true
      · have hopen : env.mdbOpen ≠ 0 := fun hopen => hopens ⟨hb, he, hopen⟩
        simp [hb, he, hopen]
      · simp [hb, he]
    · simp [hb]

/-! ## survival -/

/-- A round that gets so far makes its requests. -/
theorem scannerWork_of_asks {o : RoundOutcomes} (h : o.Asks) : scannerWork o = scannerRequests o := by
  obtain ⟨-, hdir, hscan, hfound⟩ := h
  simp [scannerWork, hdir, hscan, hfound]

/-- A round that asks no worker returns. -/
theorem scannerWork_of_not_asks {o : RoundOutcomes} (hopens : o.Opens) (h : ¬ o.Asks) :
    ∃ ret, scannerWork o = done ret := by
  by_cases hdir : o.datadir = 0
  · by_cases hscan : o.scan = 0
    · have hfound : o.found = 0 := by
        by_contra hfound
        exact h ⟨hopens, hdir, hscan, hfound⟩
      exact ⟨0, by simp [scannerWork, hdir, hscan, hfound]⟩
    · exact ⟨o.scan, by simp [scannerWork, hdir, hscan]⟩
  · exact ⟨o.datadir, by simp [scannerWork, hdir]⟩

/-- A round that returns leaves the connection open that it has opened. -/
theorem scannerRound_conns {o : RoundOutcomes} {conns conns' : List Handle} {ret : Int}
    (h : scannerRound conns o = done (ret, conns')) : conns' = conns ++ o.left := by
  by_cases hopens : o.Opens
  · rw [scannerRound_of_opens hopens] at h
    obtain ⟨_, _, heq⟩ := bind_eq_done.mp h
    simp only [done.injEq, Prod.mk.injEq] at heq
    exact heq.2.symm
  · obtain ⟨ret', hret⟩ := scannerRound_of_not_opens hopens conns
    rw [hret] at h
    simp only [done.injEq, Prod.mk.injEq] at h
    rw [RoundOutcomes.left, if_neg hopens, List.append_nil]
    exact h.2.symm

/-- **A round returns**, with a missing reply reported, if and only if both workers
reply when they are asked. -/
theorem scannerRound_returns_iff (o : RoundOutcomes) (conns : List Handle) :
    (∃ ret, scannerRound conns o = done (ret, conns ++ o.left) ∧ o.Reported ret) ↔ o.Answered := by
  by_cases hasks : o.Asks
  · rw [scannerRound_of_opens hasks.1, scannerWork_of_asks hasks, scannerRequests_eq]
    simp only [RoundOutcomes.Answered, RoundOutcomes.Reported, hasks, forall_true_left]
    cases o.builder.reply <;> cases o.extractor.reply <;> simp
  · refine iff_of_true ?_ fun h => absurd h hasks
    by_cases hopens : o.Opens
    · obtain ⟨ret, hret⟩ := scannerWork_of_not_asks hopens hasks
      exact ⟨ret, by rw [scannerRound_of_opens hopens, hret]; rfl, fun h => absurd h hasks⟩
    · obtain ⟨ret, hret⟩ := scannerRound_of_not_opens hopens conns
      refine ⟨ret, ?_, fun h => absurd h hasks⟩
      rw [hret, RoundOutcomes.left, if_neg hopens, List.append_nil]

/-- **A round closes what it opens** and returns, with a missing reply reported, if and
only if it does not open the master db. -/
theorem scannerRound_safe_iff (o : RoundOutcomes) (conns : List Handle) :
    (∃ ret, scannerRound conns o = done (ret, conns) ∧ o.Reported ret) ↔ ¬ o.Opens := by
  constructor
  · rintro ⟨ret, hround, -⟩ hopens
    have hconns := scannerRound_conns hround
    simp [RoundOutcomes.left, hopens] at hconns
  · intro hopens
    obtain ⟨ret, hret⟩ := scannerRound_of_not_opens hopens conns
    exact ⟨ret, hret, fun h => absurd h.1 hopens⟩

/-! ## any sequence of rounds -/

/-- The connections that a sequence of rounds leaves open. -/
theorem scannerLoop_conns {rounds : List RoundOutcomes} {conns conns' : List Handle}
    {rets : List Int} (h : scannerLoop conns rounds = done (rets, conns')) :
    conns' = conns ++ rounds.flatMap RoundOutcomes.left := by
  induction rounds generalizing conns rets with
  | nil =>
      simp only [scannerLoop, done.injEq, Prod.mk.injEq] at h
      rw [← h.2, List.flatMap_nil, List.append_nil]
  | cons o rounds ih =>
      obtain ⟨⟨ret, conns₁⟩, hround, hbind⟩ := bind_eq_done.mp h
      obtain ⟨⟨rets', conns₂⟩, hrest, heq⟩ := bind_eq_done.mp hbind
      simp only [pure_eq, done.injEq, Prod.mk.injEq] at heq
      obtain ⟨-, rfl⟩ := heq
      rw [ih hrest, scannerRound_conns hround, List.flatMap_cons, List.append_assoc]

/-- The loop returns exactly if every round does. -/
theorem scannerLoop_returns_iff (rounds : List RoundOutcomes) (conns : List Handle) :
    (∃ rets conns', scannerLoop conns rounds = done (rets, conns') ∧
      List.Forall₂ RoundOutcomes.Reported rounds rets) ↔ ∀ o ∈ rounds, o.Answered := by
  induction rounds generalizing conns with
  | nil => simp [scannerLoop]
  | cons o rounds ih =>
      rw [List.forall_mem_cons, ← scannerRound_returns_iff o conns, ← ih (conns ++ o.left)]
      constructor
      · rintro ⟨rets, conns', hloop, hreported⟩
        obtain ⟨⟨ret, conns₁⟩, hround, hbind⟩ := bind_eq_done.mp hloop
        obtain rfl := scannerRound_conns hround
        obtain ⟨⟨rets', conns₂⟩, hrest, heq⟩ := bind_eq_done.mp hbind
        simp only [pure_eq, done.injEq, Prod.mk.injEq] at heq
        obtain ⟨rfl, rfl⟩ := heq
        cases hreported with
        | cons hret hrets => exact ⟨⟨ret, hround, hret⟩, rets', conns₂, hrest, hrets⟩
      · rintro ⟨⟨ret, hround, hret⟩, rets, conns', hrest, hrets⟩
        exact ⟨ret :: rets, conns', by simp [scannerLoop, hround, hrest], .cons hret hrets⟩

/-- **The daemon survives** every round of a sequence, with every connection closed
that a round has opened and every missing reply reported, if and only if no round
opens the master db.  But for the connections it does if and only if in each round
both workers reply when they are asked. -/
theorem scannerLoop_survives_iff (rounds : List RoundOutcomes) :
    ((∃ rets, scannerLoop [] rounds = done (rets, []) ∧
        List.Forall₂ RoundOutcomes.Reported rounds rets) ↔ ∀ o ∈ rounds, ¬ o.Opens) ∧
      ((∃ rets conns, scannerLoop [] rounds = done (rets, conns) ∧
        List.Forall₂ RoundOutcomes.Reported rounds rets) ↔ ∀ o ∈ rounds, o.Answered) := by
  refine ⟨⟨?_, ?_⟩, scannerLoop_returns_iff rounds []⟩
  · rintro ⟨rets, hloop, -⟩ o ho hopens
    have hconns := scannerLoop_conns hloop
    rw [List.nil_append, eq_comm, List.flatMap_eq_nil_iff] at hconns
    simpa [RoundOutcomes.left, hopens] using hconns o ho
  · intro hnone
    have hanswered : ∀ o ∈ rounds, o.Answered := fun o ho hasks => absurd hasks.1 (hnone o ho)
    obtain ⟨rets, conns, hloop, hreported⟩ := (scannerLoop_returns_iff rounds []).mpr hanswered
    have hleft : rounds.flatMap RoundOutcomes.left = [] :=
      List.flatMap_eq_nil_iff.mpr fun o ho => if_neg (hnone o ho)
    obtain rfl : conns = [] := by rw [scannerLoop_conns hloop, hleft, List.nil_append]
    exact ⟨rets, hloop, hreported⟩

/-- A round in which everything succeeds leaves its connection open; where the
builder's call times out, the reply that is not there is read. -/
theorem scannerLoop_round_leaves_connection :
    (scannerLoop [] [{ builder := .replied 3, extractor := .replied 3 }] =
        done ([0], [{ stmts := 4 }]) ∧
      ¬ ∃ rets, scannerLoop [] [{ builder := .replied 3, extractor := .replied 3 }] =
        done (rets, [])) ∧
      scannerLoop [] [{ builder := .failed, extractor := .replied 3 }] = crash := by
  have hloop : scannerLoop [] [{ builder := .replied 3, extractor := .replied 3 }] =
      done ([0], [{ stmts := 4 }]) := rfl
  refine ⟨⟨hloop, ?_⟩, rfl⟩
  rintro ⟨rets, h⟩
  simp [hloop] at h

/-- The extractor's host cannot be reached: the handle that is not there is
destroyed. -/
example :
    scannerLoop [] [{ builder := .replied 3, extractor := .unreachable 111 }] = crash := rfl

end Hpssix
