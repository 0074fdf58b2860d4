import PageCompiler.Proofs.Failure
import PageCompiler.Proofs.Server.Sessions
import PageCompiler.Proofs.Server.Stats
import PageCompiler.Server.Basic

/-!
# `PageCompiler.Proofs.Server.Accounting`: which requests to compile are counted once

A submission ends in one of three ways (`submit_cases`): a compilation is handed out, a failure is
reported to the sender, or the compiler breaks down. `Accounted` says for each of them what becomes
of the numbers and of the sessions. The compiler is any function, so this does not depend on what a
service does.

What a service brings may hold halves of characters. An answer with one of them is made and counted
before it turns out that it cannot be sent. Such an answer is `Lost`: a breakdown is reported, and
yet the state has changed. `Audit` goes through a run of requests and counts the lost answers, and
`requests_counted_once_iff` says that there are no other exceptions. The bodies of the requests are
those without halves, since a half in a document is lost in the same way.
-/

set_option autoImplicit false

namespace PageCompiler

/-- A request that leads to the compiler. -/
def Request.AsksToCompile (r : Request) : Prop :=
  ∃ path, Route.path r.target = .ok path ∧ Route.ofPath? path = some .compile ∧
    Route.compile.isAskedBy r.method = true

/-- The code in a response that reports a failure. -/
def Response.errorCode? (r : Response) : Option String := do
  let code ← Assoc.get? (← r.body.fields?) "error_code"
  code.text?

namespace Submission

/-- A body without halves of characters: no text that is read from it holds one. -/
def IsWhole (context : List Char) (body : List UInt8) : Prop :=
  ∀ r, Json.readBytes? context body = some r → r.value.anyText r.standIns.occurIn = false

instance (context : List Char) (body : List UInt8) : Decidable (IsWhole context body) :=
  decidable_of_iff
    ((Json.readBytes? context body).all (fun r => !r.value.anyText r.standIns.occurIn) = true)
    (by simp [IsWhole, Option.all_eq_true])

/-- A submission keeps the halves of its body. -/
theorem standIns_of_ofFields {standIns : Option Text.StandIns} {fields : Fields} {s : Submission}
    (h : ofFields standIns fields = .ok s) : s.standIns = standIns := by
  unfold ofFields at h
  by_cases hbroken : hasBrokenName standIns fields = true
  · simp only [hbroken, if_true] at h
    cases h
  · simp only [if_neg hbroken] at h
    obtain ⟨document, -, h⟩ := Failure.bind_ok h
    obtain ⟨session, -, h⟩ := Failure.bind_ok h
    obtain ⟨includePage, -, h⟩ := Failure.bind_ok h
    split at h
    · cases h
    · cases h
      rfl

theorem eq_of_check {s s' : Submission} (h : check s = .ok s') : s' = s := by
  unfold check at h
  split at h
  · cases h
  · split at h
    · exact (Except.ok.inj h).symm
    · cases h

/-- What is submitted without halves is taken without halves. -/
theorem standIns_of_read {limit : Int} {context : List Char} {body : List UInt8} {s : Submission}
    (hwhole : IsWhole context body) (h : read limit context body = .ok s) : s.standIns = none := by
  unfold read at h
  split at h
  · cases h
  · split at h
    · cases h
    · split at h
      · cases h
      · rename_i r hr
        split at h
        · obtain ⟨s', hfields, hcheck⟩ := Failure.bind_ok h
          rw [eq_of_check hcheck, standIns_of_ofFields hfields, standIns?, hwhole r hr]
          rfl
        · cases h

end Submission

namespace Server

/-- The submission in a body. -/
def submission (ctx : Context) (body : List UInt8) : Except SubmissionError Submission :=
  Submission.read (ApiSettings.ofEnvironment ctx.environment).maxDocumentBytes ctx.additions body

/-- What the compiler makes of a submission. -/
def compilation (ctx : Context) (r : Submission) : Except CompileError Compilation :=
  ctx.compile (CompilerSettings.ofEnvironment ctx.environment) r.document

/-- The account of a request to compile. -/
inductive Accounted (s : Server) (ctx : Context) (body : List UInt8) (served : Served) : Prop where
  /-- A compilation is handed out, counted, and kept if a session is named. -/
  | compiled (r : Submission) (c : Compilation) (read : submission ctx body = .ok r)
    (compile : compilation ctx r = .ok c) (status : served.response.status = 200)
    (handed : served.response.body = resultBody ctx c r.includePage)
    (stats : s.stats.Gains c.metrics c.artifact.degraded served.server.stats)
    (sessions :
      match r.session with
      | none => served.server.sessions = s.sessions
      | some id => s.sessions.Gains id c.artifact served.server.sessions)
  /-- A failure is reported and counted under the code that the sender is told. -/
  | failed (code : String) (low : 400 ≤ served.response.status)
    (high : served.response.status < 500)
    (told : served.response.errorCode? = some code)
    (stats : s.stats.GainsFailure code served.server.stats)
    (sessions : served.server.sessions = s.sessions)
    (standIns : served.server.standIns = s.standIns)
  /-- The compiler broke down, and nothing is counted. -/
  | brokeDown (r : Submission) (e : CompileError) (read : submission ctx body = .ok r)
    (compile : compilation ctx r = .error e) (status : served.response.status = 500)
    (stats : served.server.stats = s.stats) (sessions : served.server.sessions = s.sessions)
    (standIns : served.server.standIns = s.standIns)

/-- An answer that is lost. It was made and accounted for, but a half of a character that a service
has brought is in its text. A breakdown is reported in its place, and what was counted and kept
stays. -/
structure Lost (s : Server) (ctx : Context) (body : List UInt8) (made served : Served)
    (halves : Text.StandIns) : Prop where
  submit : s.submit ctx body = .ok made
  account : s.Accounted ctx body made
  status_made : made.response.status ≠ 500
  brings : ctx.standIns = some halves
  holds : made.response.body.anyText halves.occurIn = true
  status : served.response.status = 500
  server : served.server = made.server

/-- A run of requests, each of them accounted for or lost by what the server was before it, and the
number of those that are lost. -/
inductive Audit : Server → List (Context × Request) → List Response → Server → Nat → Prop where
  | done (s : Server) : Audit s [] [] s 0
  | accounted {s : Server} {ctx : Context} {r : Request} {served : Served}
    {requests : List (Context × Request)} {responses : List Response} {last : Server} {lost : Nat}
    (serve : s.serve ctx r = .ok served) (account : s.Accounted ctx r.body served)
    (rest : Audit served.server requests responses last lost) :
    Audit s ((ctx, r) :: requests) (served.response :: responses) last lost
  | lost {s : Server} {ctx : Context} {r : Request} {made served : Served} {halves : Text.StandIns}
    {requests : List (Context × Request)} {responses : List Response} {last : Server} {lost : Nat}
    (serve : s.serve ctx r = .ok served) (lose : s.Lost ctx r.body made served halves)
    (rest : Audit served.server requests responses last lost) :
    Audit s ((ctx, r) :: requests) (served.response :: responses) last (lost + 1)

/-- A server with other slots taken. -/
def withSlots (s : Server) (limiter : Option Limiter) : Server :=
  { s with limiter }

/-- The responses to requests that are answered one after another, and the server behind them. -/
def serveAll (s : Server) :
    List (Context × Request) → Except TargetError (List Response × Server)
  | [] => .ok ([], s)
  | (ctx, r) :: rest => do
    let served ← s.serve ctx r
    let (responses, last) ← served.server.serveAll rest
    return (served.response :: responses, last)

/-- Each request of a run is accounted for by what the server was before it. -/
def AllAccounted (s : Server) : List (Context × Request) → Prop
  | [] => True
  | (ctx, r) :: rest =>
    ∃ served, s.serve ctx r = .ok served ∧ s.Accounted ctx r.body served ∧
      served.server.AllAccounted rest

/-- A server as requests leave it: the tallies are in order, and the sessions have room. -/
structure Sound (s : Server) : Prop where
  stats : s.stats.Ordered
  sessions : s.sessions.Bounded
  room : 0 < s.sessions.capacity

/-- A fresh server is sound. -/
theorem sound_fresh {n : Int} {sessions : Sessions} (h : Sessions.create n = .ok sessions)
    (limiter : Option Limiter) : ((fresh sessions).withSlots limiter).Sound := by
  unfold Sessions.create at h
  split at h
  next hpos =>
    cases h
    exact ⟨Stats.ordered_empty, Sessions.bounded_of_nil rfl, Int.lt_toNat.2 hpos⟩
  next => cases h

/-! ### One request -/

section Step

variable {s : Server} {ctx : Context} {body : List UInt8}

/-- The server as a submission finds it, with the limiter that the environment asks for. -/
def met (s : Server) (ctx : Context) : Server :=
  (s.withLimiter ctx.environment).1

theorem status_ofSubmission (e : SubmissionError) :
    400 ≤ (Failure.ofSubmission e).status ∧ (Failure.ofSubmission e).status < 500 := by
  cases e <;> simp [Failure.ofSubmission, SubmissionError.status]

theorem status_of_ofCompile? {e : CompileError} {f : Failure} (h : Failure.ofCompile? e = some f) :
    f.status = 422 := by
  obtain ⟨code, -, rfl⟩ := Option.map_eq_some_iff.1 h
  rfl

/-- A submission without halves is reported as a failure of the sender, is compiled, or breaks the
compiler. The halves that an answer may hold are those that services bring. -/
theorem submit_cases (s : Server) (hwhole : Submission.IsWhole ctx.additions body) :
    (∃ (f : Failure) (standIns : List Text.StandIns), 400 ≤ f.status ∧ f.status < 500 ∧
      standIns ⊆ ctx.standIns.toList ∧
      s.submit ctx body = .ok ((s.met ctx).fail ctx f standIns)) ∨
    (∃ r c, submission ctx body = .ok r ∧ compilation ctx r = .ok c ∧
      halves ctx r ⊆ ctx.standIns.toList ∧
      s.submit ctx body = .ok ((s.met ctx).succeed ctx r c)) ∨
    ∃ r e, submission ctx body = .ok r ∧ compilation ctx r = .error e ∧
      s.submit ctx body = .error (s.met ctx) := by
  unfold submit
  cases hread : submission ctx body with
  | error e =>
    obtain ⟨hlow, hhigh⟩ := status_ofSubmission e
    refine .inl ⟨_, [], hlow, hhigh, List.nil_subset _, ?_⟩
    simp only [submission] at hread
    simp only [hread]
    rfl
  | ok r =>
    have hhalves : halves ctx r ⊆ ctx.standIns.toList := by
      rw [halves, Submission.standIns_of_read hwhole hread]
      exact List.Subset.refl _
    simp only [submission] at hread
    simp only [hread]
    -- A free slot is asked for first. Without one the compiler is not asked.
    split
    · refine .inl ⟨_, [], ?_, ?_, List.nil_subset _, rfl⟩
      · exact (by decide : 400 ≤ 429)
      · exact (by decide : 429 < 500)
    · cases hcompile : compilation ctx r with
      | ok c =>
        simp only [compilation] at hcompile
        simp only [hcompile]
        exact .inr (.inl ⟨r, c, rfl, hcompile, hhalves, rfl⟩)
      | error e =>
        simp only [compilation] at hcompile
        simp only [hcompile]
        cases hcode : Failure.ofCompile? e with
        | some f =>
          have hstatus := status_of_ofCompile? hcode
          exact .inl ⟨f, _, by omega, by omega, hhalves, rfl⟩
        | none => exact .inr (.inr ⟨r, e, rfl, hcompile, rfl⟩)

theorem sessions_keep (s : Server) (ctx : Context) (r : Submission) (a : Artifact) :
    (s.keep ctx r a).sessions =
      match r.session with
      | none => s.sessions
      | some id => s.sessions.put id a := by
  cases h : r.session <;> simp only [keep, h]

theorem stats_succeed (s : Server) (ctx : Context) (r : Submission) (c : Compilation) :
    (s.succeed ctx r c).server.stats = s.stats.record c.metrics c.artifact.degraded := by
  cases h : r.session <;> simp only [succeed, keep, h]

/-- A compilation that succeeds is accounted for. -/
theorem accounted_succeed (hs : s.Sound) {r : Submission} {c : Compilation}
    (hread : submission ctx body = .ok r) (hcompile : compilation ctx r = .ok c) :
    s.Accounted ctx body ((s.met ctx).succeed ctx r c) ∧
      ((s.met ctx).succeed ctx r c).server.Sound := by
  have hkeep : ((s.met ctx).succeed ctx r c).server.sessions = _ := sessions_keep _ ctx r c.artifact
  -- The numbers gain, the sessions gain, and then both are as sound as before.
  refine ⟨.compiled r c hread hcompile rfl rfl ?_ ?_, ?_, ?_, ?_⟩
  · rw [stats_succeed]
    exact Stats.gains_record hs.stats c.metrics c.artifact.degraded
  · rw [hkeep]
    cases r.session with
    | none => rfl
    | some id => exact Sessions.gains_put hs.sessions hs.room id c.artifact
  · rw [stats_succeed]
    exact hs.stats.record c.metrics c.artifact.degraded
  · rw [hkeep]
    cases r.session with
    | none => exact hs.sessions
    | some id => exact hs.sessions.put id c.artifact
  · rw [hkeep]
    cases r.session with
    | none => exact hs.room
    | some id => exact hs.room

/-- An answer that is made is accounted for and counts once. Without one the compiler broke down. -/
theorem submit_accounted (hs : s.Sound) (hwhole : Submission.IsWhole ctx.additions body) :
    (∃ made, s.submit ctx body = .ok made ∧ s.Accounted ctx body made ∧ made.server.Sound ∧
      made.response.status ≠ 500 ∧ made.response.standIns ⊆ ctx.standIns.toList ∧
      made.server.stats.counted = s.stats.counted + 1) ∨
    ∃ r e, submission ctx body = .ok r ∧ compilation ctx r = .error e ∧
      s.submit ctx body = .error (s.met ctx) := by
  obtain ⟨f, standIns, hlow, hhigh, hhalves, hsubmit⟩ | ⟨r, c, hread, hcompile, hhalves, hsubmit⟩ |
    hbroken := submit_cases s hwhole
  · have hgains := Stats.gainsFailure_recordFailure hs.stats f.code
    have hsound : ((s.met ctx).fail ctx f standIns).server.Sound :=
      ⟨hs.stats.recordFailure f.code, hs.sessions, hs.room⟩
    exact .inl ⟨_, hsubmit, .failed f.code hlow hhigh rfl hgains rfl rfl, hsound,
      Nat.ne_of_lt hhigh, hhalves, Stats.counted_recordFailure s.stats f.code⟩
  · obtain ⟨haccount, hsound⟩ := accounted_succeed hs hread hcompile
    refine .inl ⟨_, hsubmit, haccount, hsound, (by decide : 200 ≠ 500), hhalves, ?_⟩
    rw [stats_succeed]
    exact Stats.counted_record s.stats c.metrics c.artifact.degraded
  · exact .inr hbroken

/-- An answer is sent as it was made, unless it holds a half. -/
theorem settle_cases {made : Served} (h : made.response.standIns ⊆ ctx.standIns.toList)
    (path : List Char) :
    settle ctx path (.ok made) = made ∨
    ∃ halves, ctx.standIns = some halves ∧ made.response.body.anyText halves.occurIn = true ∧
      (settle ctx path (.ok made)).response.status = 500 ∧
      (settle ctx path (.ok made)).server = made.server := by
  by_cases hbroken : made.response.isBroken = true
  · -- The text cannot be sent, but the server that the answer left is the one that goes on.
    obtain ⟨halves, hmem, hholds⟩ := List.any_eq_true.1 hbroken
    refine .inr ⟨halves, Option.mem_toList.1 (h hmem), hholds, ?_, ?_⟩
    · simp only [settle, hbroken, if_true]
      rfl
    · simp only [settle, hbroken, if_true]
      rfl
  · exact .inl (by simp only [settle, hbroken, Bool.false_eq_true, if_false])

theorem serve_of_asksToCompile (s : Server) (ctx : Context) {r : Request} (h : r.AsksToCompile) :
    ∃ path, s.serve ctx r = .ok (settle ctx path (s.submit ctx r.body)) := by
  obtain ⟨path, hpath, hroute, hmethod⟩ := h
  refine ⟨path, ?_⟩
  simp only [serve, hpath, Except.map, respond, hroute, hmethod, if_true, follow]

/-- A request to compile is accounted for, and is counted once or breaks down. Or else its answer is
lost, and it is counted and breaks down. -/
theorem serve_accounted {r : Request} (hs : s.Sound) (hasks : r.AsksToCompile)
    (hwhole : Submission.IsWhole ctx.additions r.body) :
    ∃ served, s.serve ctx r = .ok served ∧ served.server.Sound ∧
      ((s.Accounted ctx r.body served ∧
        served.server.stats.counted + (if served.response.status = 500 then 1 else 0) =
          s.stats.counted + 1) ∨
      ∃ made halves, s.Lost ctx r.body made served halves ∧
        served.server.stats.counted = s.stats.counted + 1) := by
  obtain ⟨path, hserve⟩ := serve_of_asksToCompile s ctx hasks
  obtain ⟨made, hsubmit, haccount, hsound, hstatus, hhalves, hcounted⟩ |
    ⟨r', e, hread, hcompile, hsubmit⟩ := submit_accounted hs hwhole
  · rw [hsubmit] at hserve
    refine ⟨_, hserve, ?_⟩
    obtain hmade | ⟨halves, hbrings, hholds, hlost, hserver⟩ := settle_cases hhalves path
    · rw [hmade, if_neg hstatus]
      exact ⟨hsound, .inl ⟨haccount, hcounted⟩⟩
    · rw [hserver]
      exact ⟨hsound, .inr ⟨made, halves,
        ⟨hsubmit, haccount, hstatus, hbrings, hholds, hlost, hserver⟩, hcounted⟩⟩
  · rw [hsubmit] at hserve
    exact ⟨_, hserve, ⟨hs.stats, hs.sessions, hs.room⟩,
      .inl ⟨.brokeDown r' e hread hcompile rfl rfl rfl rfl, rfl⟩⟩

/-- A breakdown that has changed the numbers is not accounted for. -/
theorem Lost.not_accounted {made served : Served} {halves : Text.StandIns}
    (h : s.Lost ctx body made served halves) : ¬s.Accounted ctx body served := by
  intro haccount
  cases haccount with
  | compiled _ _ _ _ hstatus => exact absurd (h.status.symm.trans hstatus) (by decide)
  | failed _ _ hhigh => exact absurd h.status (Nat.ne_of_lt hhigh)
  | brokeDown _ _ _ _ _ hstats =>
    rw [h.server] at hstats
    cases h.account with
    | compiled _ _ _ _ _ _ hgains =>
      have hcompiles := hgains.compiles
      rw [hstats] at hcompiles
      omega
    | failed code _ _ _ hgains =>
      have hcount := hgains.failures code
      rw [hstats, if_pos rfl] at hcount
      omega
    | brokeDown _ _ _ _ hstatus => exact h.status_made hstatus

end Step

/-! ### A run of requests -/

section Run

variable {s last : Server} {requests : List (Context × Request)} {responses : List Response}
  {lost : Nat}

/-- A run of requests to compile is audited. Each of them is counted once or breaks down, and the
lost ones do both. -/
theorem exists_audit (hs : s.Sound) (hasks : ∀ q ∈ requests, q.2.AsksToCompile)
    (hwhole : ∀ q ∈ requests, Submission.IsWhole q.1.additions q.2.body) :
    ∃ responses last lost, s.Audit requests responses last lost ∧
      last.stats.counted + responses.countP (·.status == 500) =
        s.stats.counted + requests.length + lost := by
  induction requests generalizing s with
  | nil => exact ⟨[], s, 0, .done s, rfl⟩
  | cons q requests ih =>
    obtain ⟨ctx, r⟩ := q
    rw [List.forall_mem_cons] at hasks hwhole
    -- What is carried along is that the server is sound: only then a count is changed alone.
    obtain ⟨served, hserve, hsound, hserved⟩ := serve_accounted hs hasks.1 hwhole.1
    obtain ⟨responses, last, lost, hrest, htotal⟩ := ih hsound hasks.2 hwhole.2
    obtain ⟨haccount, hcounted⟩ | ⟨made, halves, hlost, hcounted⟩ := hserved
    · refine ⟨_, last, lost, .accounted hserve haccount hrest, ?_⟩
      simp only [List.countP_cons, List.length_cons, beq_iff_eq]
      omega
    · refine ⟨_, last, lost + 1, .lost hserve hlost hrest, ?_⟩
      simp only [List.countP_cons, List.length_cons, beq_iff_eq, hlost.status, if_true]
      omega

/-- The responses that are audited are those of the run, one for each request. -/
theorem Audit.serveAll_eq (h : s.Audit requests responses last lost) :
    s.serveAll requests = .ok (responses, last) ∧ responses.length = requests.length := by
  induction h with
  | done s => exact ⟨rfl, rfl⟩
  | accounted hserve _ _ ih | lost hserve _ _ ih =>
    obtain ⟨hrest, hlength⟩ := ih
    refine ⟨?_, congrArg (· + 1) hlength⟩
    rw [serveAll, hserve]
    show Except.bind (serveAll _ _) _ = _
    rw [hrest]
    rfl

/-- Without lost answers each request is accounted for, and else some request is not. -/
theorem Audit.allAccounted_iff (h : s.Audit requests responses last lost) :
    s.AllAccounted requests ↔ lost = 0 := by
  induction h with
  | done s => exact iff_of_true trivial rfl
  | accounted hserve haccount _ ih =>
    rw [← ih]
    constructor
    · rintro ⟨served, hserve', -, hrest⟩
      rw [hserve] at hserve'
      cases hserve'
      exact hrest
    · exact fun hrest => ⟨_, hserve, haccount, hrest⟩
  | lost hserve hlost _ _ =>
    refine iff_of_false ?_ (Nat.succ_ne_zero _)
    rintro ⟨served, hserve', haccount, -⟩
    rw [hserve] at hserve'
    cases hserve'
    exact hlost.not_accounted haccount

/-- Only what services bring can make answers lost. -/
theorem Audit.eq_zero (h : s.Audit requests responses last lost)
    (hnone : ∀ q ∈ requests, q.1.standIns = none) : lost = 0 := by
  induction h with
  | done s => rfl
  | accounted _ _ _ ih => exact ih fun q hq => hnone q (List.mem_cons_of_mem _ hq)
  | lost _ hlost _ _ =>
    have hbrings := hlost.brings
    rw [hnone _ List.mem_cons_self] at hbrings
    cases hbrings

end Run

end Server

/-- When each request to compile is counted once. A run of such requests from a fresh server is
answered, whichever slots are taken. Each response is accounted for by what the server was before
it, except for the lost ones: these hold a half of a character that a service has brought, are
reported as breakdowns, and have changed the numbers and the sessions all the same. Behind the run,
the compilations, the failures and the breakdowns are as many as the requests and the lost answers.
So every request is accounted for exactly if no answer is lost, and none is where services bring
whole characters only. -/
theorem requests_counted_once_iff {n : Int} {sessions : Sessions}
    (hsessions : Sessions.create n = .ok sessions) (limiter : Option Limiter)
    (requests : List (Context × Request)) (hasks : ∀ q ∈ requests, q.2.AsksToCompile)
    (hwhole : ∀ q ∈ requests, Submission.IsWhole q.1.additions q.2.body) :
    let start := (Server.fresh sessions).withSlots limiter
    ∃ responses last lost, start.serveAll requests = .ok (responses, last) ∧
      responses.length = requests.length ∧ start.Audit requests responses last lost ∧
      last.stats.compiles + last.stats.failures.total + responses.countP (·.status == 500) =
        requests.length + lost ∧
      (start.AllAccounted requests ↔ lost = 0) ∧
      ((∀ q ∈ requests, q.1.standIns = none) → start.AllAccounted requests) := by
  intro start
  obtain ⟨responses, last, lost, haudit, hcounted⟩ :=
    Server.exists_audit (Server.sound_fresh hsessions limiter) hasks hwhole
  obtain ⟨hall, hlength⟩ := haudit.serveAll_eq
  have hzero : start.stats.counted = 0 := rfl
  rw [hzero, Nat.zero_add] at hcounted
  exact ⟨responses, last, lost, hall, hlength, haudit, hcounted, haudit.allAccounted_iff,
    fun hnone => haudit.allAccounted_iff.2 (haudit.eq_zero hnone)⟩

/-- The path of the compiler, asked for in the plain way. -/
theorem path_compile : Route.path "/v1/compile" = .ok "/v1/compile".toList := by
  obtain ⟨a, ha, hhome⟩ := @Failure.exists_ok _ _
    ((Address.read "/v1/compile").bind Route.home.under)
    (fun a => a == { Route.home with path := "/v1/compile" }) (by decide +kernel)
  rw [beq_iff_eq] at hhome
  have hfault : Route.hostFault? { Route.home with path := "/v1/compile" } = none := by
    simp [Route.hostFault?, Address.authority, Route.home, Address.empty]
    decide
  rw [Route.path, ha, hhome]
  simp only [hfault]
  exact congrArg Except.ok (by decide +kernel)

/-- A request to compile a body of ASCII characters. -/
def compileRequest (body : String) : Request :=
  { method := "post", target := "/v1/compile", body := body.toList.map fun c => c.toNat.toUInt8 }

theorem asksToCompile_compileRequest (body : String) : (compileRequest body).AsksToCompile :=
  ⟨_, path_compile, by decide +kernel, (by decide : Route.compile.isAskedBy "post" = true)⟩

theorem serve_compileRequest (s : Server) (ctx : Context) (body : String) :
    s.serve ctx (compileRequest body) =
      .ok (s.respond ctx "post" "/v1/compile".toList (compileRequest body).body) := by
  show (Route.path "/v1/compile").map _ = _
  rw [path_compile]
  rfl

/-- A submission for which no slot is free, a compilation that is kept, a body that is no
submission, a breakdown of the compiler, and an answer that is lost: its artifact is kept, though
a breakdown is reported. From the second request on there are more slots. -/
theorem requests_counted_once_iff_mixed :
    let halves : Text.StandIns := ⟨0x40000⟩
    let torn : Artifact :=
      { (default : Artifact) with markup := String.ofList [halves.char 0xd800] }
    let ctx (slots : String) (outcome : Except CompileError Compilation) : Context :=
      { environment := [("APMLC_MAX_CONCURRENCY", slots)], compile := fun _ _ => outcome,
        additions := [], standIns := some halves, requestId := "q", waitedMs := 0, elapsedMs := 1 }
    let document (session : String) : Request :=
      compileRequest ("\x7b\"apml\": \"x\", \"session_id\": \"" ++ session ++ "\"\x7d")
    let requests :=
      [(ctx "1" (.ok default), document "u"), (ctx "2" (.ok default), document "u"),
       (ctx "2" (.ok default), compileRequest "[1]"),
       (ctx "2" (.error (.crashed "down")), document "v"),
       (ctx "2" (.ok { (default : Compilation) with artifact := torn }), document "w")]
    let start := (Server.fresh ⟨2, []⟩).withSlots (some ⟨1, 10, 1⟩)
    Sessions.create 2 = .ok ⟨2, []⟩ ∧ (∀ q ∈ requests, q.2.AsksToCompile) ∧
    (∀ q ∈ requests, Submission.IsWhole q.1.additions q.2.body) ∧
    ∃ responses last, start.serveAll requests = .ok (responses, last) ∧
      responses.map Response.status = [429, 200, 400, 500, 500] ∧
      last.stats.compiles = 2 ∧ last.stats.failures.total = 2 ∧
      last.sessions.get? "u" = some default ∧ last.sessions.get? "v" = none ∧
      last.sessions.get? "w" = some torn ∧ ¬start.AllAccounted requests := by
  intro halves torn ctx document requests start
  have hcreate : Sessions.create 2 = .ok ⟨2, []⟩ := rfl
  have hasks : ∀ q ∈ requests, q.2.AsksToCompile := by
    simp only [requests, document, List.forall_mem_cons, asksToCompile_compileRequest]
    simp
  have hwhole : ∀ q ∈ requests, Submission.IsWhole q.1.additions q.2.body := by
    decide +kernel
  obtain ⟨responses, last, lost, hall, -, -, hcounted, hiff, -⟩ :=
    requests_counted_once_iff hcreate (some ⟨1, 10, 1⟩) requests hasks hwhole
  have hrun : responses.map Response.status = [429, 200, 400, 500, 500] ∧
      last.stats.compiles = 2 ∧ last.stats.failures.total = 2 ∧
      last.sessions.get? "u" = some default ∧ last.sessions.get? "v" = none ∧
      last.sessions.get? "w" = some torn := by
    simp only [requests, document, Server.serveAll, serve_compileRequest] at hall
    obtain ⟨rfl, rfl⟩ := Prod.mk.inj (Except.ok.inj hall)
    decide +kernel
  refine ⟨hcreate, hasks, hwhole, responses, last, hall, ?_⟩
  obtain ⟨hstatus, hcompiles, hfailures, hu, hv, hw⟩ := hrun
  refine ⟨hstatus, hcompiles, hfailures, hu, hv, hw, ?_⟩
  -- Two breakdowns are reported, and one of them was counted as well.
  have hbroken : (responses.map Response.status).countP (· == 500) = 2 := by
    rw [hstatus]
    rfl
  rw [List.countP_map] at hbroken
  have hcounted : 2 + 2 + 2 = 5 + lost := by
    rw [hcompiles, hfailures] at hcounted
    exact hbroken ▸ hcounted
  rw [hiff]
  omega

end PageCompiler
