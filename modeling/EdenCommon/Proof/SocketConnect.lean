import EdenCommon.Spec.SocketConnect

/-!
# What `connect` reports

A `connect` calls its callback at once or leaves a `Connector` behind, which calls it at the
first event: `handlerReady` cancels the timer and `timeoutExpired` the handler, so not even
a callback that runs the loop sees a second call (`Unarmed.step`, `Unarmed.reports_run`).

What the `Connector` reports is another matter. `handlerReady` asks for `SO_ERROR` and then
looks at whether `getsockopt` succeeded, not at the error it gave, and it makes the
`UnixSocket` in a function that must not throw. So the outcome is reported, once and as it
is, exactly if no writable event comes with an error to be read or with a `UnixSocket` that
cannot be made (`connect_reportsOutcome_iff`).
-/

namespace EdenCommon

namespace Connecting

open Lib

variable {κ F : Type} {calls : ConnectCalls κ} {address : String} {s s' : Connecting κ F} {c : Connector κ}
  {e : ConnectEvent}

/-- What is wanted of a `connect`. -/
structure ReportsOutcome (calls : ConnectCalls κ) (s : Connecting κ F) : Prop where
  /-- Until the callback is called the timeout can come, and calls it. -/
  pending : s.reports = [] → ∃ s', step s .timeout = some s' ∧ s'.reports ≠ []
  once : s.reports.length ≤ 1
  /-- Whatever comes later does not call it again. -/
  final : s.reports ≠ [] → ∀ events s', run step s events = some s' → s'.reports = s.reports
  truthful : ∀ socket, .connectSuccess socket ∈ s.reports → calls.connect = .ok () ∨ s.soError = some 0

/-- An event that does not show what `handlerReady` overlooks. -/
def Harmless (e : ConnectEvent) : Prop :=
  ∀ error makeUnique, e = .writable (.ok error) makeUnique → error = 0 ∧ makeUnique = .made

/-! ### Steps -/

theorem step_terminated (hterm : s.terminated = true) : step s e = none := by
  unfold step
  rw [if_pos hterm]

/-- What a step can do. -/
theorem step_cases (h : step s e = some s') : ∃ c, s.connector = some c ∧ s.terminated = false ∧
    ((∃ getsockopt makeUnique, e = .writable getsockopt makeUnique ∧ c.handler = true ∧
        s' = c.handlerReady getsockopt makeUnique s) ∨
      (e = .timeout ∧ c.isScheduled = true ∧ s' = c.timeoutExpired s) ∨
      (e = .callbackReturns ∧ s.reporting = true ∧ s' = { s with connector := none, reporting := false })) := by
  unfold step at h
  split at h
  · cases h
  rename_i hterm
  split at h
  · cases h
  rename_i c hc
  refine ⟨c, hc, by simpa using hterm, ?_⟩
  cases e with
  | writable getsockopt makeUnique =>
    obtain ⟨hhandler, hs'⟩ := Option.ite_none_right_eq_some.1 h
    exact .inl ⟨getsockopt, makeUnique, rfl, hhandler, (Option.some.inj hs').symm⟩
  | timeout =>
    obtain ⟨hsched, hs'⟩ := Option.ite_none_right_eq_some.1 h
    exact .inr (.inl ⟨rfl, hsched, (Option.some.inj hs').symm⟩)
  | callbackReturns =>
    obtain ⟨hrep, hs'⟩ := Option.ite_none_right_eq_some.1 h
    exact .inr (.inr ⟨rfl, hrep, (Option.some.inj hs').symm⟩)

theorem makeUnique_eq_ok {socket : κ} {m : Construction} {made : UnixSocket κ F} :
    UnixSocket.makeUnique socket m = .ok made ↔ m = .made ∧ made = .new socket := by
  cases m with
  | made =>
    simp only [UnixSocket.makeUnique, Except.ok.injEq, true_and]
    exact eq_comm
  | fcntlFails => simp [UnixSocket.makeUnique]
  | noMemory => simp [UnixSocket.makeUnique]

/-- What `handlerReady` makes of the result of `getsockopt`, when nothing has been reported. -/
theorem handlerReady_cases (c : Connector κ) (getsockopt : Except ℕ ℤ) (makeUnique : Construction)
    (hr : s.reports = []) (h : s' = c.handlerReady getsockopt makeUnique s) :
    (∃ errno, getsockopt = .error errno ∧
        s'.reports = [.connectError (.system errno "connect failed on unix socket")]) ∨
      (∃ error, getsockopt = .ok error ∧ makeUnique = .made ∧ s'.soError = some error ∧
        s'.reports = [.connectSuccess (.new c.socket_)]) ∨
      (∃ error, getsockopt = .ok error ∧ makeUnique ≠ .made ∧ s'.terminated = true ∧ s'.reports = []) := by
  subst h
  have hone : ∀ r, s.reports ++ [r] = [r] := by
    intro r
    rw [hr, List.nil_append]
  cases getsockopt with
  | error errno => exact .inl ⟨errno, rfl, hone _⟩
  | ok error =>
    by_cases hm : makeUnique = .made
    · subst hm
      exact .inr (.inl ⟨error, rfl, rfl, rfl, hone _⟩)
    · refine .inr (.inr ⟨error, rfl, hm, ?_⟩)
      unfold Connector.handlerReady
      dsimp only
      cases hmade : UnixSocket.makeUnique (F := F) c.socket_ makeUnique with
      | ok made => exact absurd (makeUnique_eq_ok.1 hmade).1 hm
      | error => exact ⟨rfl, hr⟩

/-- Neither the handler nor the timer can call the `Connector`. -/
def Unarmed (s : Connecting κ F) : Prop :=
  ∀ c, s.connector = some c → c.handler = false ∧ c.isScheduled = false

theorem handlerReady_unarmed (c : Connector κ) (getsockopt : Except ℕ ℤ) (makeUnique : Construction)
    (s : Connecting κ F) : (c.handlerReady getsockopt makeUnique s).Unarmed := by
  intro c' hc'
  unfold Connector.handlerReady at hc'
  dsimp only at hc'
  split at hc'
  · split at hc'
    · obtain rfl := Option.some.inj hc'
      exact ⟨rfl, rfl⟩
    · obtain rfl := Option.some.inj hc'
      exact ⟨rfl, rfl⟩
  · obtain rfl := Option.some.inj hc'
    exact ⟨rfl, rfl⟩

theorem timeoutExpired_reports (c : Connector κ) (hr : s.reports = []) :
    (c.timeoutExpired s).reports = [.connectError (.system ETIMEDOUT "connect timeout on unix socket")] := by
  unfold Connector.timeoutExpired
  rw [hr, List.nil_append]

theorem timeoutExpired_unarmed (c : Connector κ) (s : Connecting κ F) : (c.timeoutExpired s).Unarmed := by
  intro c' hc'
  obtain rfl := Option.some.inj hc'
  exact ⟨rfl, rfl⟩

/-! ### After the callback -/

/-- All that can happen then is that the callback returns. -/
theorem Unarmed.step (h : s.Unarmed) (hs : Connecting.step s e = some s') :
    e = .callbackReturns ∧ s'.Unarmed ∧ s'.reports = s.reports ∧ s'.soError = s.soError := by
  obtain ⟨c, hc, -, ⟨g, m, -, hhandler, -⟩ | ⟨-, hsched, -⟩ | ⟨he, -, rfl⟩⟩ := step_cases hs
  · rw [(h c hc).1] at hhandler
    cases hhandler
  · rw [(h c hc).2] at hsched
    cases hsched
  · refine ⟨he, ?_, rfl, rfl⟩
    intro c' hc'
    cases hc'

theorem Unarmed.reports_run (h : s.Unarmed) {events : List ConnectEvent}
    (hrun : run Connecting.step s events = some s') : s'.reports = s.reports := by
  refine (run_invariant (I := fun t => t.Unarmed ∧ t.reports = s.reports) ⟨h, rfl⟩ ?_ events hrun).2
  rintro t e t' ⟨ht, hr⟩ hs
  obtain ⟨-, ht', hr', -⟩ := ht.step hs
  exact ⟨ht', hr'.trans hr⟩

/-- Once the callback has been called, what was wanted is that it was told the truth. -/
theorem Unarmed.reportsOutcome_iff (h : s.Unarmed) {r : ConnectReport κ F} (hr : s.reports = [r]) :
    ReportsOutcome calls s ↔ ∀ socket, r = .connectSuccess socket → calls.connect = .ok () ∨ s.soError = some 0 := by
  constructor
  · rintro hout socket rfl
    exact hout.truthful socket (by simp [hr])
  · intro htruth
    refine ⟨?_, ?_, fun _ events t ht => h.reports_run ht, ?_⟩
    · intro hnil
      rw [hr] at hnil
      cases hnil
    · simp [hr]
    · intro socket hmem
      rw [hr, List.mem_singleton] at hmem
      exact htruth socket hmem.symm

/-! ### How far a `connect` is -/

/-- A `Connector` waits, the callback has been called, or there was nothing to call it with. -/
inductive Phase (calls : ConnectCalls κ) (s : Connecting κ F) : Prop
  | waiting (c : Connector κ) (hc : s.connector = some c) (armed : c.handler = true ∧ c.isScheduled = true)
      (hs : s.reporting = false ∧ s.terminated = false) (reports : s.reports = []) (failed : calls.connect ≠ .ok ())
  | told (r : ConnectReport κ F) (unarmed : s.Unarmed) (reports : s.reports = [r])
  | terminated (hs : s.terminated = true) (reports : s.reports = [])

/-- The states in which `connect` returns. -/
theorem connect_cases (calls : ConnectCalls κ) (address : String) :
    (∃ r : ConnectReport κ F, UnixSocket.connect calls address = reported r ∧
        ∀ socket, r = .connectSuccess socket → calls.connect = .ok ()) ∨
      ∃ socketFile, UnixSocket.connect calls address = (waiting (Connector.new socketFile).start : Connecting κ F) ∧
        calls.connect ≠ .ok () := by
  have herr : ∀ {P : Prop} (e : ConnectError) (socket : UnixSocket κ F),
      ConnectReport.connectError e = .connectSuccess socket → P := by
    intro P e socket h
    cases h
  unfold UnixSocket.connect
  cases hsocket : calls.socket with
  | error errno => exact .inl ⟨_, rfl, herr _⟩
  | ok socketFile =>
  cases hcloexec : calls.setCloexec with
  | error errno => exact .inl ⟨_, rfl, herr _⟩
  | ok =>
  cases hnonblock : calls.setNonblock with
  | error errno => exact .inl ⟨_, rfl, herr _⟩
  | ok =>
  cases hconnect : calls.connect with
  | ok =>
    dsimp only
    cases UnixSocket.makeUnique (F := F) socketFile calls.makeUnique with
    | ok socket => exact .inl ⟨_, rfl, fun _ _ => rfl⟩
    | error e => exact .inl ⟨_, rfl, fun _ _ => rfl⟩
  | error errno =>
    dsimp only
    split_ifs
    · exact .inl ⟨_, rfl, herr _⟩
    · exact .inr ⟨socketFile, rfl, fun h => by cases h⟩
    · exact .inl ⟨_, rfl, herr _⟩

theorem reported_unarmed (r : ConnectReport κ F) : (reported r).Unarmed := by
  intro c hc
  cases hc

theorem phase_connect (calls : ConnectCalls κ) (address : String) :
    Phase calls (UnixSocket.connect calls address : Connecting κ F) := by
  obtain ⟨r, hr, -⟩ | ⟨socketFile, hw, hfail⟩ := connect_cases (F := F) calls address
  · rw [hr]
    exact .told r (reported_unarmed r) rfl
  · rw [hw]
    exact .waiting _ rfl ⟨rfl, rfl⟩ ⟨rfl, rfl⟩ rfl hfail

/-- While a `Connector` waits all is well. -/
theorem reportsOutcome_waiting (hc : s.connector = some c) (harmed : c.isScheduled = true)
    (hterm : s.terminated = false) (hr : s.reports = []) : ReportsOutcome calls s := by
  refine ⟨fun _ => ⟨c.timeoutExpired s, ?_, ?_⟩, ?_, fun h => absurd hr h, ?_⟩
  · simp [step, hc, harmed, hterm]
  · rw [timeoutExpired_reports c hr]
    exact List.cons_ne_nil _ _
  · simp [hr]
  · simp [hr]

theorem reportsOutcome_connect (calls : ConnectCalls κ) (address : String) :
    ReportsOutcome calls (UnixSocket.connect calls address : Connecting κ F) := by
  obtain ⟨r, hr, htruth⟩ | ⟨socketFile, hw, -⟩ := connect_cases (F := F) calls address
  · rw [hr, (reported_unarmed r).reportsOutcome_iff rfl]
    exact fun socket h => .inl (htruth socket h)
  · rw [hw]
    exact reportsOutcome_waiting rfl rfl rfl rfl

/-- A terminated program reports nothing. -/
theorem not_reportsOutcome (hterm : s.terminated = true) (hr : s.reports = []) : ¬ ReportsOutcome calls s := by
  intro h
  obtain ⟨s', hs', -⟩ := h.pending hr
  rw [step_terminated hterm] at hs'
  cases hs'

theorem Phase.step (h : Phase calls s) (hs : Connecting.step s e = some s') : Phase calls s' := by
  cases h with
  | told r hun hr =>
    obtain ⟨-, hun', hr', -⟩ := hun.step hs
    exact .told r hun' (hr'.trans hr)
  | terminated hterm hr =>
    rw [step_terminated hterm] at hs
    cases hs
  | waiting c hc harmed hstate hr hfail =>
    obtain ⟨c', hc', -, ⟨g, m, rfl, -, hs'⟩ | ⟨rfl, -, rfl⟩ | ⟨-, hrep, -⟩⟩ := step_cases hs
    · have hun : s'.Unarmed := hs' ▸ handlerReady_unarmed c' g m s
      obtain ⟨errno, -, hr'⟩ | ⟨error, -, -, -, hr'⟩ | ⟨error, -, -, hterm, hr'⟩ := handlerReady_cases c' g m hr hs'
      · exact .told _ hun hr'
      · exact .told _ hun hr'
      · exact .terminated hterm hr'
    · exact .told _ (timeoutExpired_unarmed c' s) (timeoutExpired_reports c' hr)
    · rw [hstate.1] at hrep
      cases hrep

/-- The steps after which the outcome is not what was wanted. -/
theorem Phase.reportsOutcome_step (h : Phase calls s) (hs : Connecting.step s e = some s') :
    ReportsOutcome calls s' ↔ ReportsOutcome calls s ∧ Harmless e := by
  cases h with
  | told r hun hr =>
    obtain ⟨rfl, hun', hr', hso⟩ := hun.step hs
    have hharmless : Harmless .callbackReturns := fun error m h => by cases h
    rw [hun'.reportsOutcome_iff (hr'.trans hr), hun.reportsOutcome_iff hr, hso]
    exact (and_iff_left hharmless).symm
  | terminated hterm hr =>
    rw [step_terminated hterm] at hs
    cases hs
  | waiting c hc harmed hstate hr hfail =>
    rw [and_iff_right (reportsOutcome_waiting hc harmed.2 hstate.2 hr)]
    obtain ⟨c', hc', -, ⟨g, m, rfl, -, hs'⟩ | ⟨rfl, -, rfl⟩ | ⟨-, hrep, -⟩⟩ := step_cases hs
    · have hun : s'.Unarmed := hs' ▸ handlerReady_unarmed c' g m s
      obtain ⟨errno, rfl, hr'⟩ | ⟨error, rfl, rfl, hso, hr'⟩ | ⟨error, rfl, hm, hterm, hr'⟩ :=
        handlerReady_cases c' g m hr hs'
      · rw [hun.reportsOutcome_iff hr']
        exact iff_of_true (fun socket h => by cases h) (fun error m h => by cases h)
      · rw [hun.reportsOutcome_iff hr', hso]
        constructor
        · rintro htruth error' m' heq
          cases heq
          exact ⟨Option.some.inj ((htruth _ rfl).resolve_left hfail), rfl⟩
        · intro hharmless socket _
          exact .inr (congrArg some (hharmless error _ rfl).1)
      · exact iff_of_false (not_reportsOutcome hterm hr') fun hharmless => hm (hharmless error m rfl).2
    · rw [(timeoutExpired_unarmed c' s).reportsOutcome_iff (timeoutExpired_reports c' hr)]
      exact iff_of_true (fun socket h => by cases h) (fun error m h => by cases h)
    · rw [hstate.1] at hrep
      cases hrep

/-! ### Runs -/

/-- **The outcome is reported once and as it is** exactly if every writable event at which
`getsockopt` succeeds finds no error to be read and a `UnixSocket` that can be made. -/
theorem connect_reportsOutcome_iff (calls : ConnectCalls κ) (address : String) {events : List ConnectEvent}
    (hrun : run step (UnixSocket.connect calls address : Connecting κ F) events = some s) :
    ReportsOutcome calls s ↔ ∀ e ∈ events, Harmless e := by
  rw [run_iff (fun _ _ _ => Phase.step) (fun _ _ _ => Phase.reportsOutcome_step) events
    (phase_connect calls address) hrun, allSteps_of_run hrun]
  exact and_iff_right (reportsOutcome_connect calls address)

/-- The answers to a `connect` that blocks. -/
def blocks : ConnectCalls Unit where
  socket := .ok ()
  setCloexec := .ok ()
  setNonblock := .ok ()
  connect := .error EAGAIN
  makeUnique := .made
  newConnector := true

/-- A connection that stands when the socket turns writable. -/
theorem connect_reportsOutcome_iff_stands :
    ∃ s : Connecting Unit ℕ, run step (UnixSocket.connect blocks "sock") [.writable (.ok 0) .made] = some s ∧
      (ReportsOutcome blocks s ↔ ∀ e ∈ [ConnectEvent.writable (.ok 0) .made], Harmless e) :=
  ⟨_, rfl, connect_reportsOutcome_iff blocks "sock" rfl⟩

/-- A connection that was refused while `connect` waited is reported as a success. -/
theorem connect_refused_reported_success :
    ∃ s : Connecting Unit ℕ,
      run step (UnixSocket.connect blocks "sock") [.writable (.ok ECONNREFUSED) .made] = some s ∧
      (∃ socket, s.reports = [.connectSuccess socket]) ∧ ¬ ReportsOutcome blocks s := by
  refine ⟨_, rfl, ⟨_, rfl⟩, fun h => ?_⟩
  obtain hconnect | hso := h.truthful _ (List.mem_singleton.2 rfl)
  · cases hconnect
  · exact absurd (Option.some.inj hso) (by decide)

end Connecting

end EdenCommon
