import TelecomSuite.Dagw.Frame
import TelecomSuite.Dagw.Trace

/-!
# The row limit of a session

In the `_DB_SYBASE_` build `PreExecSQL` sets the row limit of the database session before the
client's statement, and `m_rowCount` remembers the limit it asked for last, so that it is not set
again without need. The limit itself belongs to the session behind the worker's handle. The gateway
is run with the limits of all sessions, which follow from what is sent through each handle
(`limited`).

`m_rowCount` is assigned before the `set rowcount` statement runs, is kept when a reconnect gives
the worker another handle, and the filter for client statements that set the limit looks for
lower-case words only. After each of these the cached value is stale, and a request that asks for
just this value is executed without setting the limit (`SetFails.not_limit_in_force`).
`limit_in_force` says that nothing else goes wrong.
-/

namespace TelecomSuite.Dagw

open Transition Fallible
open Relation (ReflTransGen)

section
variable {W : Type} [DecidableEq W]

/-! ## Every worker has a handle of its own -/

/-- A handle is given out once and to one worker. -/
structure Private (s : State W) : Prop where
  issued : ∀ w h, (s.workers w).m_pDbQuery = some h → h < s.issued
  distinct : ∀ w w' h, (s.workers w).m_pDbQuery = some h → (s.workers w').m_pDbQuery = some h →
    w = w'

/-- No `m_rowCount` changes, and the handles stay private. -/
structure Regrants (s t : State W) : Prop where
  rowCount : ∀ v, (t.workers v).m_rowCount = (s.workers v).m_rowCount
  keeps : Private s → Private t

section
variable {s t u : State W}

omit [DecidableEq W] in
/-- `Regrants` over two parts of a run. -/
theorem Regrants.trans (h : Regrants s t) (h' : Regrants t u) : Regrants s u :=
  ⟨fun v => (h'.rowCount v).trans (h.rowCount v), fun hp => h'.keeps (h.keeps hp)⟩

omit [DecidableEq W] in
/-- Nothing has changed. -/
theorem Regrants.of_same (hrows : ∀ v, (t.workers v).m_rowCount = (s.workers v).m_rowCount)
    (hhandle : ∀ v, (t.workers v).m_pDbQuery = (s.workers v).m_pDbQuery)
    (hissued : t.issued = s.issued) : Regrants s t := by
  refine ⟨hrows, fun hp => ⟨?_, ?_⟩⟩
  · intro w h hw
    rw [hissued]
    exact hp.issued w h ((hhandle w).symm.trans hw)
  · intro w w' h hw hw'
    exact hp.distinct w w' h ((hhandle w).symm.trans hw) ((hhandle w').symm.trans hw')

omit [DecidableEq W] in
/-- A state and itself. -/
theorem Regrants.refl (s : State W) : Regrants s s := .of_same (fun _ => rfl) (fun _ => rfl) rfl

/-- A worker changes, but neither its handle nor its `m_rowCount`. -/
theorem regrants_setWorker {w : W} {p : TDBProcess} (hrow : p.m_rowCount = (s.workers w).m_rowCount)
    (hhandle : p.m_pDbQuery = (s.workers w).m_pDbQuery) : Regrants s (s.setWorker w p) := by
  refine .of_same (fun v => ?_) (fun v => ?_) rfl
  all_goals
    rw [State.setWorker_workers]
    rcases eq_or_ne v w with rfl | hne
    · rwa [Function.update_self]
    · rw [Function.update_of_ne hne]

/-- A worker's handle is cleared, or replaced by a new one. -/
theorem regrants_setHandle {s' : State W} {w : W} {h : Option Handle}
    (hworkers : s'.workers = s.workers) (hissued : s.issued ≤ s'.issued)
    (hnew : ∀ k, h = some k → s.issued ≤ k ∧ k < s'.issued) :
    Regrants s (s'.setWorker w { s.workers w with m_pDbQuery := h }) := by
  refine ⟨?_, fun hp => ⟨?_, ?_⟩⟩
  · intro v
    rw [State.setWorker_workers]
    rcases eq_or_ne v w with rfl | hne
    · rw [Function.update_self]
    · rw [Function.update_of_ne hne, hworkers]
  · intro v k hv
    rw [State.setWorker_workers] at hv
    rcases eq_or_ne v w with rfl | hne
    · rw [Function.update_self] at hv
      exact (hnew k hv).2
    · rw [Function.update_of_ne hne, hworkers] at hv
      exact (hp.issued v k hv).trans_le hissued
  · intro v v' k hv hv'
    -- the new handle is none of the old ones
    have hold : ∀ x ≠ w, ((s'.setWorker w { s.workers w with m_pDbQuery := h }).workers
        x).m_pDbQuery = (s.workers x).m_pDbQuery := by
      intro x hx
      rw [State.setWorker_workers, Function.update_of_ne hx, hworkers]
    have hself :
        ((s'.setWorker w { s.workers w with m_pDbQuery := h }).workers w).m_pDbQuery = h := by
      rw [State.setWorker_workers, Function.update_self]
    have hne : ∀ x ≠ w, h = some k → (s.workers x).m_pDbQuery ≠ some k := fun x _ hk hx =>
      absurd (hp.issued x k hx) (hnew k hk).1.not_gt
    by_cases hv₁ : v = w <;> by_cases hv₂ : v' = w
    · exact hv₁.trans hv₂.symm
    · rw [hold v' hv₂] at hv'
      rw [hv₁, hself] at hv
      exact absurd hv' (hne v' hv₂ hv)
    · rw [hold v hv₁] at hv
      rw [hv₂, hself] at hv'
      exact absurd hv (hne v hv₁ hv')
    · rw [hold v hv₁] at hv
      rw [hold v' hv₂] at hv'
      exact hp.distinct v v' k hv hv'

/-- What is written for a source. -/
theorem regrants_writes {src : String} (h : ReflTransGen (Writes src) s t) : Regrants s t := by
  induction h with
  | refl => exact .refl s
  | tail _ hw ih =>
    refine ih.trans ?_
    cases hw with
    | arrive | post | info => exact .of_same (fun _ => rfl) (fun _ => rfl) rfl
    | queue _ hput =>
      obtain ⟨-, rfl⟩ := tryPut_some hput
      exact regrants_setWorker rfl rfl
    | clear =>
      refine regrants_setHandle rfl le_rfl ?_
      intro k hk
      cases hk
    | grant =>
      refine regrants_setHandle rfl (Nat.le_succ _) ?_
      intro k hk
      cases hk
      exact ⟨le_rfl, Nat.lt_succ_self _⟩

/-- No task changes the limit that a worker believes set. -/
theorem regrants_perform (cfg : Cfg) (own : Option W) (s : State W) (reply : Reply) (t : Task) :
    Regrants s (perform cfg own s reply t).1 := by
  cases t with
  | postMessage | errProcess | connect => exact .of_same (fun _ => rfl) (fun _ => rfl) rfl
  | process utm =>
    cases own with
    | none => exact .refl s
    | some w =>
      simp only [perform]
      split
      · next hput =>
        obtain ⟨-, rfl⟩ := tryPut_some hput
        exact regrants_setWorker rfl rfl
      · exact .refl s
  | reconnect src todo => exact regrants_writes (writes_reconnectRelease s reply src todo)
  | assign src todo => exact regrants_writes (writes_reconnectAssign s reply src todo)

/-- What the steps other than `exec` do to handles and `m_rowCount`. -/
theorem regrants_step {cfg : Cfg} {a : Label W} (h : Step cfg s a t)
    (ha : ∀ w db, a ≠ .exec w db) : Regrants s t := by
  cases h with
  | @receive sender utm =>
    obtain ⟨t, hw, ht | ht⟩ := writes_receive cfg s sender utm
    all_goals
      rw [ht]
      exact (regrants_writes hw).trans (.of_same (fun _ => rfl) (fun _ => rfl) rfl)
  | @serve reply task =>
    exact (regrants_perform cfg none s reply task).trans
      (.of_same (fun _ => rfl) (fun _ => rfl) rfl)
  | @act w reply task =>
    exact (regrants_perform cfg (some w) s reply task).trans (regrants_setWorker rfl rfl)
  | exec => exact absurd rfl (ha _ _)
  | take | skip | quit => exact regrants_setWorker rfl rfl
  | shutdown | release | join => exact .of_same (fun _ => rfl) (fun _ => rfl) rfl
  | @stop w todo =>
    have huninit : Regrants s { s with service := .uninit todo } :=
      .of_same (fun _ => rfl) (fun _ => rfl) rfl
    exact huninit.trans (regrants_setWorker rfl rfl)
  | @wake w todo p _ hput =>
    obtain ⟨-, rfl⟩ := tryPut_some hput
    have huninit : Regrants s { s with service := .uninit todo } :=
      .of_same (fun _ => rfl) (fun _ => rfl) rfl
    exact huninit.trans (regrants_setWorker rfl rfl)

end

end

/-! ## The limit of a session -/

/-- The row limit of a session and the text that its next `execute` runs, after one more call. The
limit changes only when a text that sets it is executed; `sets` gives what a text sets it to. -/
def sessionCall (sets : String → Option Nat) (p : Option Nat × String) :
    DbCall → Option Nat × String
  | .command sql true => (p.1, sql)
  | .execute true => ((sets p.2).or p.1, p.2)
  | .command _ false | .execute false => p

/-- The row limit of a session after these calls. -/
def limitAfter (sets : String → Option Nat) (limit : Option Nat) (calls : List DbCall) :
    Option Nat :=
  (calls.foldl (sessionCall sets) (limit, "")).1

/-- Whether the limit of the session may be another one than the cached, after `PreExecSQL` has sent
`pre`: a `set rowcount` that has returned puts an end to it. -/
def staleSent (stale : Bool) (pre : List DbCall) : Bool :=
  match pre.getLast? with
  | none => stale
  | some call => call ≠ .execute true

/-- The same when the client's statement `sql` has then sent `rest`. -/
def staleAfter (sets : String → Option Nat) (sql : String) (stale : Bool) (pre rest : List DbCall) :
    Bool :=
  staleSent stale pre || rest.contains (.execute true) && (sets sql).isSome

section
variable {sets : String → Option Nat} {sql : String} {r : Except Fault Unit} {l : List DbCall}

/-- A statement that is executed sets the limit if its text does. -/
theorem Sends.limit (h : Sends sql r l) (p : Option Nat × String) :
    (l.foldl (sessionCall sets) p).1 = if r.toBool then (sets sql).or p.1 else p.1 := by
  cases h <;> rfl

/-- The last call is the execution, if one is sent. -/
theorem Sends.getLast? (h : Sends sql r l) :
    ∃ call, l.getLast? = some call ∧ (call = .execute true ↔ r.toBool = true) := by
  cases h with
  | refused => exact ⟨_, rfl, nofun, nofun⟩
  | prepared => exact ⟨_, rfl, nofun, nofun⟩
  | failed => exact ⟨_, rfl, nofun, nofun⟩
  | executed => exact ⟨_, rfl, fun _ => rfl, fun _ => rfl⟩

/-- The request was executed if that call is among them. -/
theorem Sends.contains (h : Sends sql r l) : l.contains (.execute true) = r.toBool := by
  cases h <;> rfl

/-- `PreExecSQL` keeps the cached limit right unless it is stale, and when it accepts the limit is
the one asked for. -/
theorem PreSends.limit {b : Build} {σ : Type} {q : BaseQuery σ} {s : σ} {L rc rc' : Nat}
    {out : Except Fault Bool} {limit : Option Nat} {stale : Bool}
    (h : PreSends b q s sql L rc out rc' l) (hb : b = .sybase)
    (hsets : sets (setRowCountText L) = some L)
    (hstale : stale = true → L = rc → ∀ n, (q.effectCount s).1 = .ok n → rc < n)
    (hsync : stale = false → rc ≠ 0 → limit = some rc) :
    (staleSent stale l = false → rc' ≠ 0 → limitAfter sets limit l = some rc') ∧
      (out = .ok true → L ≠ 0 → limitAfter sets limit l = some L) := by
  cases h with
  | rejected => exact ⟨hsync, nofun⟩
  | escaped => exact ⟨hsync, nofun⟩
  | unlimited hne => exact absurd hb hne
  | @cached n _ _ hrow hcount hle =>
    refine ⟨hsync, ?_⟩
    intro _ hL
    have hfresh : stale = false := by
      refine Bool.eq_false_iff.2 ?_
      intro hst
      exact absurd (hstale hst hrow n hcount) (Nat.not_lt.2 hle)
    rw [hrow] at hL ⊢
    exact hsync hfresh hL
  | @sent r _ _ _ hsends =>
    have hset : r.toBool = true → limitAfter sets limit l = some L := by
      intro hr
      rw [limitAfter, hsends.limit, if_pos hr, hsets]
      rfl
    obtain ⟨call, hlast, hcall⟩ := hsends.getLast?
    refine ⟨fun hst _ => hset (hcall.1 ?_), fun hok _ => hset (Except.ok.inj hok)⟩
    simpa [staleSent, hlast] using hst

end

/-- What one request does to the limit of its session, where `rc` is the cached one. -/
theorem exec_limit {sets : String → Option Nat} {cfg : Cfg} (hb : cfg.build = .sybase) {db : Db}
    {rc : Nat} {u : UserTransferMessage} {limit : Option Nat} {stale : Bool}
    (hsets : sets (setRowCountText (requestedRowCount cfg.m_MaxRowCount u)) =
      some (requestedRowCount cfg.m_MaxRowCount u))
    (hstale : stale = true → requestedRowCount cfg.m_MaxRowCount u = rc →
      ∀ n, (db.query.effectCount db.session).1 = .ok n → rc < n)
    (hsync : stale = false → rc ≠ 0 → limit = some rc)
    (hfresh : staleAfter sets u.sql stale (db.preTrace cfg rc u)
      ((db.trace cfg rc u).drop (db.preTrace cfg rc u).length) = false)
    (hrow : (db.exec cfg rc u).2.m_rowCount ≠ 0) :
    limitAfter sets limit (db.trace cfg rc u) = some (db.exec cfg rc u).2.m_rowCount := by
  obtain ⟨hpre, l, htrace, hbody⟩ := db.trace_eq cfg rc u
  have horacle : cfg.build ≠ .oracle := by
    rw [hb]
    exact nofun
  rw [db.exec_m_rowCount horacle rc u] at hrow ⊢
  rw [htrace, List.drop_left, staleAfter, Bool.or_eq_false_iff] at hfresh
  have hlimit := (hpre.limit hb hsets hstale hsync).1 hfresh.1 hrow
  rw [htrace, limitAfter, List.foldl_append]
  rcases hbody with ⟨-, hsends⟩ | ⟨-, rfl⟩
  · rw [hsends.limit]
    rw [hsends.contains] at hfresh
    split
    · next hok =>
      rw [hok, Bool.true_and, Option.isSome_eq_false_iff, Option.isNone_iff_eq_none] at hfresh
      rw [hfresh.2]
      exact hlimit
    · exact hlimit
  · exact hlimit

/-! ## The gateway with the limits -/

/-- The limits of the sessions behind the handles, and the workers whose `m_rowCount` may be another
value than the limit of their session. -/
structure Sessions (W : Type) where
  limit : Handle → Option Nat
  stale : W → Bool

section
variable {W : Type} [DecidableEq W] (sets : String → Option Nat) (cfg : Cfg)

/-- The sessions after a step. A worker that gets another handle gets another session. -/
def Sessions.next (g : Sessions W) (s : State W) (a : Label W) (t : State W) : Sessions W where
  limit :=
    match a with
    | .exec w db =>
      match (s.workers w).thread, (s.workers w).m_pDbQuery with
      | .got u, some h => Function.update g.limit h
          (limitAfter sets (g.limit h) (db.trace cfg (s.workers w).m_rowCount u))
      | _, _ => g.limit
    | _ => g.limit
  stale v :=
    if (t.workers v).m_pDbQuery ≠ (s.workers v).m_pDbQuery then true
    else
      match a with
      | .exec w db =>
        match (s.workers w).thread with
        | .got u =>
          if v = w then staleAfter sets u.sql (g.stale w)
            (db.preTrace cfg (s.workers w).m_rowCount u)
            ((db.trace cfg (s.workers w).m_rowCount u).drop
              (db.preTrace cfg (s.workers w).m_rowCount u).length)
          else g.stale v
        | _ => g.stale v
      | _ => g.stale v

/-- The gateway with the limits, from what `init` leaves: every `m_rowCount` is zero, and no session
has a limit. -/
def limited : LTS (State W × Sessions W) (Label W) where
  init p := Initial p.1 ∧ (∀ w, (p.1.workers w).m_rowCount = 0) ∧
    p.2 = ⟨fun _ => none, fun _ => false⟩
  step p a q := Step cfg p.1 a q.1 ∧ q.2 = p.2.next sets cfg p.1 a q.1

variable {sets cfg} in
/-- The sessions keep no step from happening. -/
theorem limited_step {s t : State W} {a : Label W} (h : Step cfg s a t) (g : Sessions W) :
    (limited sets cfg).step (s, g) a (t, g.next sets cfg s a t) := ⟨h, rfl⟩

/-- A limit that `%d` prints as it is, and no request that relies on a stale value: it asks for
another one, or `effectCount` shows that more rows came. -/
def Refreshes (s : State W) (g : Sessions W) : Label W → Prop
  | .exec w db => ∀ u, (s.workers w).thread = .got u →
      requestedRowCount cfg.m_MaxRowCount u < 2 ^ 31 ∧
        (g.stale w = true →
          requestedRowCount cfg.m_MaxRowCount u = (s.workers w).m_rowCount →
          ∀ n, (db.query.effectCount db.session).1 = .ok n → (s.workers w).m_rowCount < n)
  | .receive .. | .serve _ | .take _ | .skip _ | .act .. | .quit _ | .shutdown _ | .uninit => True

variable {sets cfg}

/-- The session of every worker that is not stale has the limit `m_rowCount`, unless that is
zero. -/
structure Synced (s : State W) (g : Sessions W) : Prop where
  own : Private s
  limit : ∀ w h, (s.workers w).m_pDbQuery = some h → g.stale w = false →
    (s.workers w).m_rowCount ≠ 0 → g.limit h = some (s.workers w).m_rowCount

/-- A step other than `exec`. -/
theorem Synced.step {s t : State W} {g : Sessions W} {a : Label W} (h : Synced s g)
    (hstep : Step cfg s a t) (ha : ∀ w db, a ≠ .exec w db) :
    Synced t (g.next sets cfg s a t) := by
  have hregrants := regrants_step hstep ha
  have hlimit : (g.next sets cfg s a t).limit = g.limit := by
    cases a with
    | exec w db => exact absurd rfl (ha w db)
    | receive | serve | take | skip | act | quit | shutdown | uninit => rfl
  have hstale : ∀ v, (g.next sets cfg s a t).stale v =
      if (t.workers v).m_pDbQuery ≠ (s.workers v).m_pDbQuery then true else g.stale v := by
    cases a with
    | exec w db => exact absurd rfl (ha w db)
    | receive | serve | take | skip | act | quit | shutdown | uninit => exact fun _ => rfl
  refine ⟨hregrants.keeps h.own, ?_⟩
  intro w hd hw hfresh hrow
  rw [hstale] at hfresh
  split at hfresh
  · cases hfresh
  · next hsame =>
    rw [hregrants.rowCount] at hrow ⊢
    rw [hlimit]
    exact h.limit w hd ((not_not.1 hsame).symm.trans hw) hfresh hrow

/-- A request is handled. -/
theorem Synced.exec (hb : cfg.build = .sybase)
    (hsets : ∀ n < 2 ^ 31, sets (setRowCountText n) = some n) {s t : State W} {g : Sessions W}
    {w : W} {db : Db} (h : Synced s g) (hstep : Step cfg s (.exec w db) t)
    (hguard : Refreshes cfg s g (.exec w db)) : Synced t (g.next sets cfg s (.exec w db) t) := by
  cases hstep with
  | @exec _ u _ hgot _ _ =>
  obtain ⟨hlt, hstale⟩ := hguard u hgot
  have hhandle : ∀ v, ((s.setWorker w { s.workers w with
      m_rowCount := (db.exec cfg (s.workers w).m_rowCount u).2.m_rowCount
      thread := .after (db.exec cfg (s.workers w).m_rowCount u) }).workers v).m_pDbQuery =
        (s.workers v).m_pDbQuery := by
    intro v
    rw [State.setWorker_workers]
    rcases eq_or_ne v w with rfl | hne
    · rw [Function.update_self]
    · rw [Function.update_of_ne hne]
  refine ⟨⟨fun v k hv => h.own.issued v k ((hhandle v).symm.trans hv), fun v v' k hv hv' =>
    h.own.distinct v v' k ((hhandle v).symm.trans hv) ((hhandle v').symm.trans hv')⟩,
    ?_⟩
  intro v hd hv hfresh hrow
  simp only [Sessions.next, hhandle, ne_eq, not_true_eq_false, if_false, hgot] at hfresh ⊢
  rw [hhandle] at hv
  rw [State.setWorker_workers] at hrow ⊢
  rcases eq_or_ne v w with rfl | hne
  · rw [Function.update_self] at hrow ⊢
    rw [if_pos rfl] at hfresh
    simp only [hv, Function.update_self]
    exact exec_limit hb (hsets _ hlt) hstale (h.limit v hd hv) hfresh hrow
  · rw [Function.update_of_ne hne] at hrow ⊢
    rw [if_neg hne] at hfresh
    cases hw : (s.workers w).m_pDbQuery with
    | none => exact h.limit v hd hv hfresh hrow
    | some k =>
      have hk : hd ≠ k := fun heq => hne (h.own.distinct v w hd hv (heq ▸ hw))
      simp only [Function.update_of_ne hk]
      exact h.limit v hd hv hfresh hrow

/-- What the workers believe holds in every state that is reached by such steps. -/
theorem synced_inductive (hb : cfg.build = .sybase)
    (hsets : ∀ n < 2 ^ 31, sets (setRowCountText n) = some n) :
    ((limited (W := W) sets cfg).restrict fun p a => Refreshes cfg p.1 p.2 a).Inductive
      fun p => Synced p.1 p.2 where
  init p h := by
    obtain ⟨hinit, hrows, -⟩ := h
    refine ⟨⟨?_, ?_⟩, fun w _ _ _ hrow => absurd (hrows w) hrow⟩
    · intro w k hw
      obtain ⟨k', hk', hlt⟩ := hinit.handle w
      rw [hw] at hk'
      cases hk'
      exact hlt
    · intro w w' k hw hw'
      exact hinit.distinct w w' (hw.trans hw'.symm)
  step p a q hstep h := by
    obtain ⟨s, g⟩ := p
    obtain ⟨t, g'⟩ := q
    obtain ⟨⟨hstep, hg⟩, hguard⟩ := hstep
    simp only at hstep hg hguard h ⊢
    rw [hg]
    cases a with
    | exec w db => exact h.exec hb hsets hstep hguard
    | receive | serve | take | skip | act | quit | shutdown | uninit =>
      exact h.step hstep fun _ _ => nofun

/-- The row limit that a client may count on. -/
def wantedLimit (maxRowCount requested : Nat) : Nat :=
  if 1 ≤ requested ∧ requested ≤ maxRowCount then requested else maxRowCount

/-- The limit asked for is the one that is wanted. -/
theorem requestedRowCount_eq (maxRowCount : Nat) (u : UserTransferMessage) :
    requestedRowCount maxRowCount u = wantedLimit maxRowCount u.maxRowCount := by
  unfold requestedRowCount wantedLimit
  split_ifs <;> omega

/-- **The limit in force.** For every worker in every run of the `_DB_SYBASE_` build whose steps
meet `Refreshes`: when the worker has accepted a request and executes the client's statement, the
limit of its session is the one the client may count on. -/
theorem limit_in_force (hb : cfg.build = .sybase) (hmax : 0 < cfg.m_MaxRowCount)
    (hsets : ∀ n < 2 ^ 31, sets (setRowCountText n) = some n) {s : State W} {g : Sessions W}
    (hs : ((limited sets cfg).restrict fun p a => Refreshes cfg p.1 p.2 a).Reachable (s, g))
    {w : W} {db : Db} {p : State W × Sessions W}
    (hstep : ((limited sets cfg).restrict fun p a => Refreshes cfg p.1 p.2 a).step (s, g)
      (.exec w db) p)
    {u : UserTransferMessage} (hu : (s.workers w).thread = .got u) {h : Handle}
    (hh : (s.workers w).m_pDbQuery = some h)
    (haccepts : (db.pre cfg (s.workers w).m_rowCount u).1 = .ok true) :
    limitAfter sets (g.limit h) (db.preTrace cfg (s.workers w).m_rowCount u) =
      some (wantedLimit cfg.m_MaxRowCount u.maxRowCount) := by
  have hsynced := (synced_inductive hb hsets).reachable hs
  obtain ⟨hlt, hstale⟩ := hstep.2 u hu
  have hpos : requestedRowCount cfg.m_MaxRowCount u ≠ 0 := by
    unfold requestedRowCount
    split_ifs <;> omega
  rw [← requestedRowCount_eq]
  exact ((db.trace_eq cfg _ u).1.limit hb (hsets _ hlt) hstale
    (hsynced.limit w h hh)).2 haccepts hpos

end

/-! ## A `set rowcount` that fails -/

/-- The text as `%d` prints it. -/
theorem setRowCountText_eq {n : Nat} (h : n < 2 ^ 31) :
    setRowCountText n = "set rowcount " ++ n.repr := by
  have hnat : (BitVec.ofNat 32 n).toNat = n := by
    rw [BitVec.toNat_ofNat]
    omega
  have hint : (BitVec.ofNat 32 n).toInt = n := by
    rw [BitVec.toInt_eq_toNat_of_lt (by omega), hnat]
  rw [setRowCountText, hint]
  rfl

namespace SetFails

open LostConnection (request)
open Sample

/-- A database that knows the statement `set rowcount` alone, in any case. -/
def sets (text : String) : Option Nat :=
  if "set rowcount ".toList.isPrefixOf (text.toList.map Char.toLower) then
    (String.ofList (text.toList.drop 13)).toNat?
  else none

/-- The statement sets the limit that it names. -/
theorem sets_text (n : Nat) (h : n < 2 ^ 31) : sets (setRowCountText n) = some n := by
  have htext : (setRowCountText n).toList = "set rowcount ".toList ++ n.repr.toList := by
    rw [setRowCountText_eq h, String.toList_append]
  have hlower : "set rowcount ".toList.map Char.toLower = "set rowcount ".toList := by decide
  have hlen : "set rowcount ".toList.length = 13 := by decide
  have hprefix : "set rowcount ".toList.isPrefixOf
      ((setRowCountText n).toList.map Char.toLower) = true := by
    rw [htext, List.map_append, hlower, List.isPrefixOf_iff_prefix]
    exact List.prefix_append _ _
  rw [sets, if_pos hprefix, htext, ← hlen, List.drop_left, String.ofList_toList]
  exact Nat.toNat?_repr n

/-- The `_DB_SYBASE_` build with one source. -/
def cfg : Cfg := ⟨.sybase, LostConnection.code, 200, [⟨"bill", 1⟩]⟩

/-- A link on which every call returns. -/
def link : BaseQuery Unit := { LostConnection.query with command := fun _ s => (.ok (), s) }

/-- A database that answers. -/
def working : Db := ⟨Unit, link, (), 1⟩

/-- Its executions end. -/
theorem working_ends (rc : Nat) (u : UserTransferMessage) :
    (working.exec cfg rc u).1 ≠ .error .hang := by
  change (onExecSQL .sybase LostConnection.code 200 link 1 u.req ⟨(), u, rc, []⟩).1 ≠ _
  have hcount : EffectCountReturns .sybase 200 link () u rc := fun _ _ _ _ => ⟨0, (), rfl⟩
  obtain ⟨ok, c, hpre⟩ := preExecSQL_returns (c := ⟨(), u, rc, []⟩) hcount LostConnection.code u.req
  have hbody : (execBody link 1 u.sql c).1 = .ok () := by
    simp [execBody, registerOutParams, fetchRows, resultOf, outParams, fieldNames, call, link,
      LostConnection.query]
  rw [onExecSQL_apply, hpre]
  cases ok with
  | false =>
    intro h
    cases h
  | true =>
    dsimp only
    rw [Comp.bind_apply, attempt]
    generalize execBody link 1 u.sql c = r at hbody ⊢
    obtain ⟨out, c'⟩ := r
    obtain rfl : out = .ok () := hbody
    intro h
    cases h

/-- The first `set rowcount` meets a broken link, and its request is answered with an error. The
second request finds the limit it asks for in `m_rowCount`, and is executed without a limit. -/
theorem not_limit_in_force :
    ¬ ∀ (s : State Unit) g w db p, (limited sets cfg).Reachable (s, g) →
      (limited sets cfg).step (s, g) (.exec w db) p →
      ∀ u h, (s.workers w).thread = .got u → (s.workers w).m_pDbQuery = some h →
        (db.pre cfg (s.workers w).m_rowCount u).1 = .ok true →
        limitAfter sets (g.limit h) (db.preTrace cfg (s.workers w).m_rowCount u) =
          some (wantedLimit cfg.m_MaxRowCount u.maxRowCount) := by
  intro hall
  have hbroken : (Db.exec ⟨Unit, LostConnection.query, (), 1⟩ cfg 0 (numbered 0)).1 ≠
      .error .hang := by
    have hok : (Db.exec ⟨Unit, LostConnection.query, (), 1⟩ cfg 0 (numbered 0)).1 = .ok () := rfl
    rw [hok]
    exact nofun
  have hrun : ∃ s g as, (limited sets cfg).Run (start, ⟨fun _ => none, fun _ => false⟩) as (s, g) ∧
      (s.workers ()).thread = .got (numbered 1) ∧ (s.workers ()).m_pDbQuery = some 0 ∧
      (s.workers ()).m_rowCount = 200 ∧ g.limit 0 = none := by
    refine ⟨_, _, [.receive 7 request, .take (), .exec () ⟨Unit, LostConnection.query, (), 1⟩,
      .act () ⟨[], true, []⟩, .receive 7 request, .take ()],
      .cons (limited_step (.receive rfl rfl) _)
        (.cons (limited_step (.take (u := numbered 0) (q := []) rfl rfl rfl) _)
          (.cons (limited_step (.exec (u := numbered 0) rfl rfl hbroken) _)
            (.cons (limited_step (.act (l := []) rfl) _)
              (.cons (limited_step (.receive rfl rfl) _)
                (.cons (limited_step (.take (u := numbered 1) (q := []) rfl rfl rfl) _)
                  (.nil _)))))), rfl, rfl, rfl, rfl⟩
  obtain ⟨s, g, as, hrun, hgot, hhandle, hrc, hlimit⟩ := hrun
  have hs : (limited sets cfg).Reachable (s, g) :=
    ⟨(start, _), as, ⟨start_initial, fun _ => rfl, rfl⟩, hrun⟩
  have haccepts : (working.pre cfg 200 (numbered 1)).1 = .ok true := rfl
  have hset := hall s g () working _ hs
    (limited_step (.exec hgot rfl (working_ends _ _)) g) _ 0 hgot hhandle
    (by rw [hrc]; exact haccepts)
  rw [hrc, hlimit] at hset
  cases hset

/-- The theorem above at the first request. -/
theorem limit_in_force_delete :
    ∃ (s : State Unit) (g : Sessions Unit),
      ((limited sets cfg).restrict fun p a => Refreshes cfg p.1 p.2 a).Reachable (s, g) ∧
      (s.workers ()).thread = .got (numbered 0) ∧ g.limit 0 = none ∧
      limitAfter sets (g.limit 0) (working.preTrace cfg (s.workers ()).m_rowCount (numbered 0)) =
        some 200 := by
  have hrun : ∃ s g as, ((limited sets cfg).restrict fun p a => Refreshes cfg p.1 p.2 a).Run
      (start, ⟨fun _ => none, fun _ => false⟩) as (s, g) ∧
      (s.workers ()).thread = .got (numbered 0) ∧ (s.workers ()).m_pDbQuery = some 0 ∧
      (s.workers ()).m_rowCount = 0 ∧ g.limit 0 = none ∧ g.stale () = false := by
    refine ⟨_, _, [.receive 7 request, .take ()],
      .cons ⟨limited_step (.receive rfl rfl) _, trivial⟩
        (.cons ⟨limited_step (.take (u := numbered 0) (q := []) rfl rfl rfl) _, trivial⟩
          (.nil _)), rfl, rfl, rfl, rfl, rfl⟩
  obtain ⟨s, g, as, hrun, hgot, hhandle, hrc, hlimit, hfresh⟩ := hrun
  have hs : ((limited sets cfg).restrict fun p a => Refreshes cfg p.1 p.2 a).Reachable (s, g) :=
    ⟨(start, _), as, ⟨start_initial, fun _ => rfl, rfl⟩, hrun⟩
  have hguard : Refreshes cfg s g (.exec () working) := by
    intro u hu
    rw [hgot] at hu
    cases hu
    refine ⟨by decide, ?_⟩
    intro hstale
    rw [hfresh] at hstale
    cases hstale
  have haccepts : (working.pre cfg 0 (numbered 0)).1 = .ok true := rfl
  exact ⟨s, g, hs, hgot, hlimit, limit_in_force rfl (by decide) sets_text hs
    ⟨limited_step (.exec hgot rfl (working_ends _ _)) g, hguard⟩ hgot hhandle
    (by rw [hrc]; exact haccepts)⟩

end SetFails

end TelecomSuite.Dagw
