import WindowCast.GameStream.Connection
import WindowCast.GameStream.PairCourse
import WindowCast.GameStream.Steps

/-!
# What is launched on a host

Whatever requests come to a host, over HTTP or HTTPS and with whatever certificates, and whatever
its person, its windows and its streams do between them, a launch is made only by a client
that was paired then: one that the host knew from its disk, or one that had gone through
all the steps of a pairing.

## Main definitions

* `Launch.fresh` — a launch as it was made.
* `GameStreamHost.Grants`, `GameStreamHost.MadeBy` — a request that may launch, and the one that a launch is of.
* `GameStreamHost.Granted` — what every step of a host preserves.
* `GameStreamHost.withoutStrangers` — a run without the requests of clients that are not paired.

## Main results

* `GameStreamHost.step_cases` — what a step does to the streams and to the pairings.
* `GameStreamHost.Granted.step` — one step of the invariant.
* `GameStreamHost.launches_are_granted` — **only paired clients launch, and one launch goes on at a time**.
* `GameStreamHost.strangers_leave_no_trace` — **what clients ask for that are not paired changes nothing**.
-/

namespace WindowCast.GameStream

open WindowCast.Host (WindowId)

/-! ### Launches -/

/-- A launch as it was made. -/
def Launch.fresh (self : Launch) : Launch := { self with stop := false, streaming := false }

namespace Server

variable {platform : Platform} {s s' : Server}

/-- Only the launch that is current goes on. -/
def Current (s : Server) : Prop := ∀ i launch, s.launches[i]? = some launch → launch.stop = false → s.launch = some i

theorem map_fresh_modify {launches : List Launch} {f : Launch → Launch} (hf : ∀ l, (f l).fresh = l.fresh) (i : ℕ) :
    (launches.modify i f).map Launch.fresh = launches.map Launch.fresh := by
  refine List.ext_getElem? fun k => ?_
  rw [List.getElem?_map, List.getElem?_map, List.getElem?_modify]
  cases launches[k]? with
  | none => rfl
  | some l =>
    refine congrArg some ?_
    split
    · exact hf l
    · rfl

theorem map_fresh_stopped (s : Server) : s.stopped.map Launch.fresh = s.launches.map Launch.fresh := by
  rw [stopped]
  split
  · refine map_fresh_modify ?_ _
    exact fun _ => rfl
  · rfl

theorem length_stopped (s : Server) : s.stopped.length = s.launches.length := by
  have hlength := congrArg List.length s.map_fresh_stopped
  rwa [List.length_map, List.length_map] at hlength

/-- A step makes no launch but the one that is asked for. -/
theorem fresh_step {e : Event} (h : s.step platform e = some s') :
    s'.launches.map Launch.fresh = s.launches.map Launch.fresh ∨
      ∃ resume asked key mode pingPayload connectData app, e = .launch resume asked key mode pingPayload connectData ∧
        s.allows resume asked = some app ∧ s'.launches.map Launch.fresh = s.launches.map Launch.fresh ++
          [⟨app, key, mode.1, mode.2.1, mode.2.2, pingPayload, connectData, false, false⟩] := by
  cases e with
  | shows window title => cases h; exact .inl rfl
  | drops window => cases h; exact .inl rfl
  | lists windows => cases h; exact .inl rfl
  | launch resume asked key mode pingPayload connectData =>
    rw [step] at h
    split at h
    · cases h
      exact .inl rfl
    · rename_i app happ
      cases h
      refine .inr ⟨resume, asked, key, mode, pingPayload, connectData, app, rfl, happ, ?_⟩
      rw [List.map_append, map_fresh_stopped]
      rfl
  | cancel =>
    cases h
    exact .inl (map_fresh_stopped s)
  | announce i number rtspPeer =>
    rcases step_announce h with rfl | ⟨launch, config, -, -, rfl⟩
    · exact .inl rfl
    · refine .inl (map_fresh_modify ?_ _)
      exact fun _ => rfl
  | run i e =>
    obtain ⟨_, _, _, _, _, _, _, rfl⟩ := step_run h
    exact .inl rfl
  | clears i =>
    obtain ⟨_, _, _, rfl⟩ := step_clears h
    refine .inl (map_fresh_modify ?_ _)
    exact fun _ => rfl

theorem stop_of_modify {launches : List Launch} {f : Launch → Launch} (hf : ∀ l, (f l).stop = l.stop) {i k : ℕ}
    {launch : Launch} (h : (launches.modify i f)[k]? = some launch) :
    ∃ l, launches[k]? = some l ∧ l.stop = launch.stop := by
  rw [List.getElem?_modify] at h
  obtain ⟨l, hl, heq⟩ := Option.map_eq_some_iff.mp h
  refine ⟨l, hl, ?_⟩
  rw [← heq]
  split
  · exact (hf l).symm
  · rfl

/-- Once the current one is told to stop, none goes on. -/
theorem Current.stopped (h : s.Current) {i : ℕ} {launch : Launch} (hi : s.stopped[i]? = some launch) :
    launch.stop = true := by
  rw [Server.stopped] at hi
  cases hcurrent : s.launch with
  | none =>
    rw [hcurrent] at hi
    by_contra hgoes
    have := h i launch hi (Bool.not_eq_true _ ▸ hgoes)
    rw [hcurrent] at this
    cases this
  | some k =>
    rw [hcurrent, List.getElem?_modify] at hi
    obtain ⟨l, hl, rfl⟩ := Option.map_eq_some_iff.mp hi
    split
    · rfl
    · rename_i hne
      by_contra hgoes
      have := h i l hl (Bool.not_eq_true _ ▸ hgoes)
      rw [hcurrent] at this
      exact hne (Option.some.inj this)

theorem Current.step (hs : s.Current) {e : Event} (h : s.step platform e = some s') : s'.Current := by
  cases e with
  | shows window title => cases h; exact hs
  | drops window => cases h; exact hs
  | lists windows => cases h; exact hs
  | launch resume asked key mode pingPayload connectData =>
    rw [Server.step] at h
    split at h
    · cases h
      exact hs
    · cases h
      intro i launch hi hgoes
      rcases getElem?_concat_cases hi with hold | ⟨hlast, -⟩
      · rw [hs.stopped hold] at hgoes
        cases hgoes
      · rw [hlast, length_stopped]
  | cancel =>
    cases h
    intro i launch hi hgoes
    rw [hs.stopped hi] at hgoes
    cases hgoes
  | announce i number rtspPeer =>
    rcases step_announce h with rfl | ⟨launch, config, -, -, rfl⟩
    · exact hs
    · intro k launch hk hgoes
      obtain ⟨l, hl, hstop⟩ := stop_of_modify (f := fun l => { l with streaming := true }) (fun _ => rfl) hk
      exact hs k l hl (hstop.trans hgoes)
  | run i e =>
    obtain ⟨_, _, _, _, _, _, _, rfl⟩ := step_run h
    exact hs
  | clears i =>
    obtain ⟨_, _, _, rfl⟩ := step_clears h
    intro k launch hk hgoes
    obtain ⟨l, hl, hstop⟩ := stop_of_modify (f := fun l => { l with streaming := false }) (fun _ => rfl) hk
    exact hs k l hl (hstop.trans hgoes)

end Server

/-! ### What a step can do -/

theorem CompatApps.apps_any (self : CompatApps) (app : UInt32) :
    (self.apps.any fun a => a.id = app) = self.shows app := by
  rw [Bool.eq_iff_iff, apps, shows, List.any_eq_true, List.any_eq_true]
  constructor
  · rintro ⟨a, ha, hid⟩
    rw [List.mem_insertionSort, List.mem_map] at ha
    obtain ⟨e, he, rfl⟩ := ha
    exact ⟨e.1, List.mem_map_of_mem he, hid⟩
  · rintro ⟨w, hw, hid⟩
    obtain ⟨e, he, rfl⟩ := List.mem_map.mp hw
    refine ⟨⟨appId e.1, e.2, false⟩, ?_, hid⟩
    rw [List.mem_insertionSort]
    exact List.mem_map_of_mem he

namespace GameStreamHost

section

variable {crypto : Cryptography} {server : Credentials} {face : Face} {platform : Platform}
  {host host' : GameStreamHost} {request : Request}

/-- The event of the pairings that an event is, if it is one. -/
def Event.pairing : Event → Option GameStream.Event
  | .request request =>
    if request.path = "/pair".toList then
      some (.request request.query request.peer.isSome request.cert request.secret request.drawn)
    else none
  | .enterPin pin deviceName uniqueId => some (.enterPin pin deviceName uniqueId)
  | .giveUp uniqueId => some (.giveUp uniqueId)
  | _ => none

/-- The launch that a request makes, of an app. -/
def launchOf (request : Request) (key : Vector UInt8 16) (app : UInt32) : Launch :=
  ⟨app, key, (askedMode request.query).1, (askedMode request.query).2.1, (askedMode request.query).2.2,
    pingPayload request.random, request.connectData, false, false⟩

/-- A request of a client that is paired, for a launch that may be made: of the app that runs, or,
where none does, of one that is shown. -/
structure Grants (host : GameStreamHost) (request : Request) (key : Vector UInt8 16) (keyId app : UInt32) : Prop where
  paired : host.isPaired request = true
  asked : asked request.query = some (some (key, keyId))
  allowed : request.path = "/resume".toList ∧ (∃ running, host.server.running = some running ∧ running.app = app) ∨
    request.path = "/launch".toList ∧ host.server.running = none ∧ askedApp request.query = some app ∧
      host.server.apps.shows app = true

theorem Grants.allows {key : Vector UInt8 16} {keyId app : UInt32} (h : host.Grants request key keyId app) :
    host.server.allows request.resumes app = some app := by
  rcases h.allowed with ⟨hpath, running, hrunning, rfl⟩ | ⟨hpath, hrunning, -, hshows⟩
  · simp only [Request.resumes, hpath, decide_true, Server.allows, hrunning]
  · have hresumes : request.resumes = false := by
      rw [Request.resumes, hpath]
      decide
    simp only [hresumes, Server.allows, hrunning, hshows, if_true]

/-- What is made of a launch that is granted. -/
def launched (face : Face) (host : GameStreamHost) (request : Request) (key : Vector UInt8 16) (keyId app : UInt32) :
    GameStreamHost :=
  { host with
    server := { host.server with
      launches := host.server.stopped ++ [launchOf request key app]
      launch := some host.server.launches.length
      out := [] }
    keyIds := host.keyIds ++ [keyId]
    answer := some (launchAnswer face request.address request.resumes) }

/-- A launch that is allowed is made. -/
theorem server_launch {resume : Bool} {app : UInt32} (hallows : host.server.allows resume app = some app)
    (key : Vector UInt8 16) (mode : UInt32 × UInt32 × UInt32) (ping : List UInt8) (connectData : UInt32) :
    host.server.step platform (.launch resume app key mode ping connectData) = some { host.server with
      launches := host.server.stopped ++ [⟨app, key, mode.1, mode.2.1, mode.2.2, ping, connectData, false, false⟩]
      launch := some host.server.launches.length
      out := [] } := by
  rw [Server.step]
  simp only [hallows]

theorem launch_of_grants {key : Vector UInt8 16} {keyId app : UInt32} (h : host.Grants request key keyId app) :
    host.launch face platform request.resumes request = host.launched face request key keyId app := by
  have hmade : host.server.step platform _ = _ := server_launch h.allows key (askedMode request.query)
    (pingPayload request.random) request.connectData
  rw [launch, h.asked]
  dsimp only
  rcases h.allowed with ⟨hpath, running, hrunning, rfl⟩ | ⟨hpath, hrunning, happ, hshows⟩
  · have hresumes : request.resumes = true := decide_eq_true hpath
    simp only [hresumes, if_true, hrunning] at hmade ⊢
    rw [hmade, launched, hresumes]
    rfl
  · have hresumes : request.resumes = false := by
      rw [Request.resumes, hpath]
      decide
    have hfilter : (some app).filter host.server.apps.shows = some app := by
      rw [Option.filter_some, if_pos hshows]
    simp only [hresumes, Bool.false_eq_true, if_false, hrunning, Option.isSome_none, happ, CompatApps.apps_any,
      hfilter] at hmade ⊢
    rw [hmade, launched, hresumes]
    rfl

variable (face platform) in
/-- A request for a launch is granted, or it is only answered. -/
theorem launch_cases (hpaired : host.isPaired request = true)
    (hpath : request.path = "/launch".toList ∨ request.path = "/resume".toList) :
    (∃ answer, host.launch face platform request.resumes request = host.quiet answer) ∨
      ∃ key keyId app, host.Grants request key keyId app := by
  rw [launch]
  cases hasked : asked request.query with
  | none => exact .inl ⟨_, rfl⟩
  | some given =>
    cases given with
    | none => exact .inl ⟨_, rfl⟩
    | some p =>
      obtain ⟨key, keyId⟩ := p
      dsimp only
      cases hresumes : request.resumes with
      | true =>
        cases hrunning : host.server.running with
        | none => exact .inl ⟨_, rfl⟩
        | some running =>
          exact .inr ⟨key, keyId, running.app, hpaired, hasked,
            .inl ⟨of_decide_eq_true hresumes, running, hrunning, rfl⟩⟩
      | false =>
        cases hrunning : host.server.running with
        | some running => exact .inl ⟨_, rfl⟩
        | none =>
          simp only [Bool.false_eq_true, if_false, Option.isSome_none, CompatApps.apps_any]
          cases happ : (askedApp request.query).filter host.server.apps.shows with
          | none => exact .inl ⟨_, rfl⟩
          | some app =>
            obtain ⟨hgiven, hshows⟩ := Option.filter_eq_some_iff.mp happ
            exact .inr ⟨key, keyId, app, hpaired, hasked,
              .inr ⟨hpath.resolve_right (of_decide_eq_false hresumes), hrunning, hgiven, hshows⟩⟩

/-- What a step does to the streams. -/
inductive Does (platform : Platform) (face : Face) (host : GameStreamHost) : Event → GameStreamHost → Prop
  | quiet {e : Event} {host' : GameStreamHost} (server : host'.server = { host.server with out := [] })
    (keyIds : host'.keyIds = host.keyIds) : Does platform face host e host'
  /-- Quitting the app, by a client that is paired. -/
  | cancels {request : Request} {host' : GameStreamHost} (paired : host.isPaired request = true)
    (server : host.server.step platform .cancel = some host'.server) (keyIds : host'.keyIds = host.keyIds) :
    Does platform face host (.request request) host'
  | streams {e : Event} {host' : GameStreamHost} (e' : Server.Event) (request : ∀ request, e ≠ .request request)
    (launch : ∀ resume app key mode ping connectData, e' ≠ .launch resume app key mode ping connectData)
    (server : host.server.step platform e' = some host'.server) (keyIds : host'.keyIds = host.keyIds) :
    Does platform face host e host'
  | launches {request : Request} {key : Vector UInt8 16} {keyId app : UInt32} {host' : GameStreamHost}
    (grants : host.Grants request key keyId app) (launched : host' = host.launched face request key keyId app) :
    Does platform face host (.request request) host'

/-- A step leaves the pairings as they are, or it is one of theirs. -/
def PairingStep (crypto : Cryptography) (server : Credentials) (host : GameStreamHost) (e : Event)
    (host' : GameStreamHost) : Prop :=
  host'.pairings = host.pairings ∨
    ∃ event, e.pairing = some event ∧ host.pairings.step crypto server event = some host'.pairings

variable (crypto server) in
theorem pairingEvent_spec (host : GameStreamHost) (locked : Bool) (event : GameStream.Event) :
    ((host.pairingEvent crypto server locked event).server = { host.server with out := [] } ∧
        (host.pairingEvent crypto server locked event).keyIds = host.keyIds) ∧
      ((host.pairingEvent crypto server locked event).pairings = host.pairings ∨
        host.pairings.step crypto server event = some (host.pairingEvent crypto server locked event).pairings) := by
  rw [pairingEvent]
  split
  · exact ⟨⟨rfl, rfl⟩, .inl rfl⟩
  · split
    · rename_i pairings hstep
      exact ⟨⟨rfl, rfl⟩, .inr hstep⟩
    · exact ⟨⟨rfl, rfl⟩, .inl rfl⟩

theorem streams_spec {e : Event} {e' : Server.Event} (h : host.streams platform e' = some host')
    (hrequest : ∀ request, e ≠ .request request)
    (hlaunch : ∀ resume app key mode ping connectData, e' ≠ .launch resume app key mode ping connectData) :
    Does platform face host e host' ∧ PairingStep crypto server host e host' := by
  obtain ⟨server', hserver, rfl⟩ := Option.map_eq_some_iff.mp h
  exact ⟨.streams e' hrequest hlaunch hserver rfl, .inl rfl⟩

/-- **What a step does** to the streams, and to the pairings. -/
theorem step_cases {e : Event} (h : host.step crypto server face platform e = some host') :
    Does platform face host e host' ∧ PairingStep crypto server host e host' := by
  cases e with
  | request request =>
    cases h
    rw [connection]
    split
    · exact ⟨.quiet rfl rfl, .inl rfl⟩
    split
    · rename_i hpair
      obtain ⟨⟨hserver, hkeyIds⟩, hpairings⟩ := pairingEvent_spec crypto server host (locks crypto request.query)
        (.request request.query request.peer.isSome request.cert request.secret request.drawn)
      exact ⟨.quiet hserver hkeyIds, hpairings.imp_right fun hstep => ⟨_, if_pos hpair, hstep⟩⟩
    split
    · exact ⟨.quiet rfl rfl, .inl rfl⟩
    split
    · rename_i hpath
      split
      · rename_i hpaired
        rcases launch_cases face platform hpaired hpath with ⟨answer, heq⟩ | ⟨key, keyId, app, hgrants⟩
        · rw [heq]
          exact ⟨.quiet rfl rfl, .inl rfl⟩
        · rw [launch_of_grants hgrants]
          exact ⟨.launches hgrants rfl, .inl rfl⟩
      · exact ⟨.quiet rfl rfl, .inl rfl⟩
    split
    · split
      · rename_i hpaired
        exact ⟨.cancels hpaired rfl rfl, .inl rfl⟩
      · exact ⟨.quiet rfl rfl, .inl rfl⟩
    · exact ⟨.quiet rfl rfl, .inl rfl⟩
  | enterPin pin deviceName uniqueId =>
    cases h
    obtain ⟨⟨hserver, hkeyIds⟩, hpairings⟩ := pairingEvent_spec crypto server host true
      (.enterPin pin deviceName uniqueId)
    exact ⟨.quiet hserver hkeyIds, hpairings.imp_right fun hstep => ⟨_, rfl, hstep⟩⟩
  | giveUp uniqueId =>
    cases h
    obtain ⟨⟨hserver, hkeyIds⟩, hpairings⟩ := pairingEvent_spec crypto server host true
      (.giveUp uniqueId)
    exact ⟨.quiet hserver hkeyIds, hpairings.imp_right fun hstep => ⟨_, rfl, hstep⟩⟩
  | accept =>
    cases h
    exact ⟨.quiet rfl rfl, .inl rfl⟩
  | rtsp connection number peer =>
    obtain ⟨launch, -, h⟩ := Option.bind_eq_some_iff.mp h
    dsimp only at h
    split at h
    · rename_i i numbers
      obtain ⟨server', hserver, rfl⟩ := Option.map_eq_some_iff.mp h
      exact ⟨.streams _ (by rintro _ ⟨⟩) (by rintro _ _ _ _ _ _ ⟨⟩) hserver rfl, .inl rfl⟩
    · cases h
      exact ⟨.quiet rfl rfl, .inl rfl⟩
  | shows window title => exact streams_spec h (by rintro _ ⟨⟩) (by rintro _ _ _ _ _ _ ⟨⟩)
  | drops window => exact streams_spec h (by rintro _ ⟨⟩) (by rintro _ _ _ _ _ _ ⟨⟩)
  | lists windows => exact streams_spec h (by rintro _ ⟨⟩) (by rintro _ _ _ _ _ _ ⟨⟩)
  | run i event => exact streams_spec h (by rintro _ ⟨⟩) (by rintro _ _ _ _ _ _ ⟨⟩)
  | clears i => exact streams_spec h (by rintro _ ⟨⟩) (by rintro _ _ _ _ _ _ ⟨⟩)

/-! ### Runs -/

section

variable (crypto : Cryptography) (server : Credentials) (face : Face) (platform : Platform)
  (known : List (List UInt8)) (windows : List WindowId)

/-- The request that a launch is of: it came from a client that was paired then, after `past`. -/
structure MadeBy (events : List Event) (launch : Launch) (keyId : UInt32) : Prop where
  request : ∃ past before request rest, events = past ++ .request request :: rest ∧
    past.foldlM (step crypto server face platform) (opened known windows) = some before ∧
    before.Grants request launch.key keyId launch.app ∧ launch = launchOf request launch.key launch.app

/-- What every step of a host preserves. -/
structure Granted (events : List Event) (host : GameStreamHost) : Prop where
  sound : Sound crypto server known host.pairings
  /-- What the pairings have seen came in this order. -/
  log : (host.pairings.log.map Prod.fst).Sublist (events.filterMap Event.pairing)
  length : host.keyIds.length = host.server.launches.length
  made : ∀ p ∈ (host.server.launches.map Launch.fresh).zip host.keyIds,
    MadeBy crypto server face platform known windows events p.1 p.2
  current : host.server.Current
  runs : host.server.Each fun _ _ => True

end

section

variable {known : List (List UInt8)} {windows : List WindowId} {events : List Event}

theorem MadeBy.append {launch : Launch} {keyId : UInt32}
    (h : MadeBy crypto server face platform known windows events launch keyId) (more : List Event) :
    MadeBy crypto server face platform known windows (events ++ more) launch keyId := by
  obtain ⟨past, before, request, rest, rfl, hpast, hgrants⟩ := h.request
  exact ⟨past, before, request, rest ++ more, by rw [List.append_assoc, List.cons_append], hpast, hgrants⟩

theorem granted_opened : Granted crypto server face platform known windows [] (opened known windows) where
  sound := ⟨fun _ _ hp => (by cases hp), Run.always_nil, fun _ => .inl⟩
  log := List.Sublist.slnil
  length := rfl
  made := fun p hp => absurd hp List.not_mem_nil
  current := fun i launch h => by cases h
  runs := fun i run h => by cases h

/-- The pairings see their events in the order in which these come. -/
theorem log_sublist {e : Event} (h : (host.pairings.log.map Prod.fst).Sublist (events.filterMap Event.pairing))
    (hpairings : PairingStep crypto server host e host') :
    (host'.pairings.log.map Prod.fst).Sublist ((events ++ [e]).filterMap Event.pairing) := by
  rw [List.filterMap_append]
  rcases hpairings with heq | ⟨event, hevent, hstep⟩
  · rw [heq]
    exact h.trans (List.sublist_append_left _ _)
  · unfold History.step at hstep
    obtain ⟨⟨reply, next⟩, -, heq⟩ := Option.map_eq_some_iff.mp hstep
    have hlast : [e].filterMap Event.pairing = [event] := by
      rw [List.filterMap_cons, hevent]
      rfl
    rw [← heq, List.map_append, hlast]
    exact h.append (List.Sublist.refl _)

theorem sound_of_pairingStep {e : Event} (h : Sound crypto server known host.pairings)
    (hpairings : PairingStep crypto server host e host') : Sound crypto server known host'.pairings := by
  rcases hpairings with heq | ⟨event, -, hstep⟩
  · rw [heq]
    exact h
  · exact sound_step h hstep

/-- What is launched stays what it is. -/
theorem Granted.of_same (h : Granted crypto server face platform known windows events host) {e : Event}
    (hpairings : PairingStep crypto server host e host') (hkeyIds : host'.keyIds = host.keyIds)
    (hlaunches : host'.server.launches.map Launch.fresh = host.server.launches.map Launch.fresh)
    (hcurrent : host'.server.Current) (hruns : host'.server.Each fun _ _ => True) :
    Granted crypto server face platform known windows (events ++ [e]) host' where
  sound := sound_of_pairingStep h.sound hpairings
  log := log_sublist h.log hpairings
  length := by
    have hlength := congrArg List.length hlaunches
    rw [List.length_map, List.length_map] at hlength
    rw [hkeyIds, hlength, h.length]
  made := fun p hp => by
    rw [hlaunches, hkeyIds] at hp
    exact (h.made p hp).append [e]
  current := hcurrent
  runs := hruns

theorem each_step {s s' : Server} {e : Server.Event} (hs : s.Each fun _ _ => True) (h : s.step platform e = some s') :
    s'.Each fun _ _ => True :=
  Server.Each.step (fun _ _ => trivial) (fun _ _ _ _ _ => trivial) (fun _ _ => trivial) (fun _ _ _ _ => trivial) h hs

/-- **One step of the invariant.** -/
theorem Granted.step (h : Granted crypto server face platform known windows events host)
    (hrun : events.foldlM (GameStreamHost.step crypto server face platform) (opened known windows) = some host)
    {e : Event} (hstep : host.step crypto server face platform e = some host') :
    Granted crypto server face platform known windows (events ++ [e]) host' := by
  obtain ⟨hdoes, hpairings⟩ := step_cases hstep
  cases hdoes with
  | quiet hserver hkeyIds =>
    refine h.of_same hpairings hkeyIds (by rw [hserver]) ?_ ?_
    · rw [hserver]
      exact h.current
    · rw [hserver]
      exact h.runs
  | cancels hpaired hserver hkeyIds =>
    refine h.of_same hpairings hkeyIds ?_ (h.current.step hserver) (each_step h.runs hserver)
    rcases Server.fresh_step hserver with hsame | ⟨_, _, _, _, _, _, _, heq, -⟩
    · exact hsame
    · cases heq
  | streams e' hrequest hlaunch hserver hkeyIds =>
    refine h.of_same hpairings hkeyIds ?_ (h.current.step hserver) (each_step h.runs hserver)
    rcases Server.fresh_step hserver with hsame | ⟨_, _, _, _, _, _, _, heq, -⟩
    · exact hsame
    · exact absurd heq (hlaunch _ _ _ _ _ _)
  | @launches request key keyId app _ hgrants hlaunched =>
    have hmade : host.server.step platform (.launch request.resumes app key (askedMode request.query)
        (pingPayload request.random) request.connectData) = some host'.server := by
      rw [server_launch hgrants.allows, hlaunched]
      rfl
    have hkeyIds : host'.keyIds = host.keyIds ++ [keyId] := by rw [hlaunched, launched]
    have hfresh : host'.server.launches.map Launch.fresh =
        host.server.launches.map Launch.fresh ++ [launchOf request key app] := by
      rw [hlaunched, launched, List.map_append, Server.map_fresh_stopped]
      rfl
    have hlength := h.length
    refine ⟨sound_of_pairingStep h.sound hpairings, log_sublist h.log hpairings, ?_, fun p hp => ?_,
      h.current.step hmade, each_step h.runs hmade⟩
    · have hlaunches := congrArg List.length hfresh
      rw [List.length_map, List.length_append, List.length_map, List.length_singleton] at hlaunches
      rw [hkeyIds, List.length_append, List.length_singleton, hlaunches, hlength]
    · rw [hfresh, hkeyIds, List.zip_append (by rw [List.length_map, hlength])] at hp
      rcases List.mem_append.mp hp with hp | hp
      · exact (h.made p hp).append [_]
      · obtain rfl := List.mem_singleton.mp hp
        exact ⟨events, host, request, [], rfl, hrun, hgrants, rfl⟩

theorem granted_of_run (hrun : events.foldlM (GameStreamHost.step crypto server face platform)
    (opened known windows) = some host) : Granted crypto server face platform known windows events host := by
  induction events using List.reverseRecOn generalizing host with
  | nil =>
    cases hrun
    exact granted_opened
  | append_singleton events e ih =>
    obtain ⟨before, hbefore, hstep⟩ := Run.snoc.mp hrun
    exact (ih hbefore).step hbefore hstep

/-- Each launch is of a request. -/
theorem Granted.madeBy (h : Granted crypto server face platform known windows events host) {i : ℕ} {launch : Launch}
    (hi : host.server.launches[i]? = some launch) : ∃ keyId, host.keyIds[i]? = some keyId ∧
      MadeBy crypto server face platform known windows events launch.fresh keyId := by
  have hlt : i < host.keyIds.length := by
    rw [h.length]
    exact (List.getElem?_eq_some_iff.mp hi).1
  have hkeyId : host.keyIds[i]? = some host.keyIds[i] := List.getElem?_eq_getElem hlt
  have hzip : (launch.fresh, host.keyIds[i]) ∈ (host.server.launches.map Launch.fresh).zip host.keyIds := by
    refine List.mem_of_getElem? (i := i) (List.getElem?_zip_eq_some.mpr ⟨?_, hkeyId⟩)
    rw [List.getElem?_map, hi]
    rfl
  exact ⟨_, hkeyId, h.made _ hzip⟩

/-- **Only paired clients launch, and one launch goes on at a time**: in every run, each launch is of
a request for it that came over HTTPS with a certificate which the host knew from its disk, or
which it had answered for at the end of all the steps of a pairing, and has what that request
asked for; the launch that goes on is the current one; and every stream is one of a launch. -/
theorem launches_are_granted (hrun : events.foldlM (GameStreamHost.step crypto server face platform)
    (opened known windows) = some host) :
    (∀ (i : ℕ) (launch : Launch), host.server.launches[i]? = some launch → ∃ past before request rest keyId cert,
      events = past ++ .request request :: rest ∧
      past.foldlM (GameStreamHost.step crypto server face platform) (opened known windows) = some before ∧
      asked request.query = some (some (launch.key, keyId)) ∧ host.keyIds[i]? = some keyId ∧
      (request.path = "/resume".toList ∧ (∃ running, before.server.running = some running ∧ running.app = launch.app) ∨
        request.path = "/launch".toList ∧ before.server.running = none ∧ askedApp request.query = some launch.app ∧
          before.server.apps.shows launch.app = true) ∧
      launch.fresh = launchOf request launch.key launch.app ∧ request.peer = some (some cert) ∧
      (cert ∈ known ∨ ∃ seen event xml behind,
        before.pairings.log = seen ++ (event, .answered xml (some cert)) :: behind ∧
        ((seen ++ [(event, Reply.answered xml (some cert))]).map Prod.fst).Sublist (past.filterMap Event.pairing) ∧
        Paired crypto server cert event seen)) ∧
      host.server.Current ∧
      ∀ run ∈ host.server.runs, run.launch < host.server.launches.length := by
  have hgranted := granted_of_run hrun
  refine ⟨fun i launch hi => ?_, hgranted.current, fun run hrun => ?_⟩
  · obtain ⟨keyId, hkeyId, hmadeBy⟩ := hgranted.madeBy hi
    obtain ⟨past, before, request, rest, hevents, hpast, hgrants, hmade⟩ := hmadeBy.request
    obtain ⟨cert, hcert, hpinned⟩ := isPaired_iff.mp hgrants.paired
    have hbefore := granted_of_run hpast
    refine ⟨past, before, request, rest, _, cert, hevents, hpast, hgrants.asked, hkeyId, hgrants.allowed, hmade, hcert,
      ?_⟩
    refine (hbefore.sound.pinned cert hpinned).imp_right fun ⟨event, xml, hmem⟩ => ?_
    obtain ⟨seen, behind, hlog⟩ := List.append_of_mem hmem
    refine ⟨seen, event, xml, behind, hlog, ?_, ?_⟩
    · have hsublist := hbefore.log
      rw [hlog, ← List.singleton_append, ← List.append_assoc, List.map_append] at hsublist
      exact (List.sublist_append_left _ _).trans hsublist
    · exact hbefore.sound.answered seen _ behind hlog xml cert rfl
  · obtain ⟨i, hi⟩ := List.getElem?_of_mem hrun
    obtain ⟨launch, hlaunch, -⟩ := hgranted.runs i run hi
    exact (List.getElem?_eq_some_iff.mp hlaunch).1

end

end

/-! ### Who is not paired -/

section

variable {crypto : Cryptography} {server : Credentials} {face : Face} {platform : Platform}
  {host host' : GameStreamHost}

/-- A request of a client that is not paired, for anything but a pairing. -/
def IsStranger (host : GameStreamHost) : Event → Prop
  | .request request => host.isPaired request = false ∧ request.path ≠ "/pair".toList
  | _ => False

instance (host : GameStreamHost) : ∀ e, Decidable (host.IsStranger e)
  | .request request => inferInstanceAs (Decidable (host.isPaired request = false ∧ request.path ≠ "/pair".toList))
  | .enterPin .. | .giveUp .. | .accept | .rtsp .. | .shows .. | .drops .. | .lists .. | .run .. | .clears .. =>
    inferInstanceAs (Decidable False)

variable (crypto server face platform) in
/-- The events of a run but the requests of strangers. -/
def withoutStrangers (host : GameStreamHost) : List Event → List Event
  | [] => []
  | e :: es =>
    match host.step crypto server face platform e with
    | none => e :: es
    | some host' => if host.IsStranger e then withoutStrangers host' es else e :: withoutStrangers host' es

/-- What was sent and answered last is of no account. -/
theorem step_quiet (host : GameStreamHost) (answer : Option Text) (e : Event) :
    (host.quiet answer).step crypto server face platform e = host.step crypto server face platform e := by
  cases e <;> rfl

variable (crypto server face platform) in
/-- A stranger's request is only answered. -/
theorem step_stranger {e : Event} (h : host.IsStranger e) :
    ∃ answer, host.step crypto server face platform e = some (host.quiet answer) := by
  cases e with
  | request request =>
    obtain ⟨hpaired, hpath⟩ := h
    simp only [step, connection, if_neg hpath, hpaired, Bool.false_eq_true, if_false]
    split
    · exact ⟨_, rfl⟩
    split
    · exact ⟨_, rfl⟩
    split
    · exact ⟨_, rfl⟩
    split
    · exact ⟨_, rfl⟩
    · exact ⟨_, rfl⟩
  | _ => exact h.elim

theorem run_quiet {events : List Event} {answer : Option Text} {last : GameStreamHost}
    (hrun : events.foldlM (step crypto server face platform) (host.quiet answer) = some last) :
    ∃ last', events.foldlM (step crypto server face platform) host = some last' ∧
      last'.quiet none = last.quiet none := by
  cases events with
  | nil => exact ⟨host, rfl, by rw [← Run.nil.mp hrun]; rfl⟩
  | cons e events =>
    obtain ⟨next, hstep, hrest⟩ := Run.cons.mp hrun
    rw [step_quiet] at hstep
    exact ⟨last, Run.cons.mpr ⟨next, hstep, hrest⟩, rfl⟩

/-- **Strangers leave no trace**: without the requests of clients that are not paired, other than those
for a pairing, a run ends where it does with them, but for what was sent and answered last. -/
theorem strangers_leave_no_trace {events : List Event}
    (hrun : events.foldlM (step crypto server face platform) host = some host') :
    ∃ last, (withoutStrangers crypto server face platform host events).foldlM (step crypto server face platform) host =
        some last ∧
      last.quiet none = host'.quiet none := by
  induction events generalizing host with
  | nil => exact ⟨host, rfl, by rw [Run.nil.mp hrun]⟩
  | cons e events ih =>
    obtain ⟨next, hstep, hrest⟩ := Run.cons.mp hrun
    obtain ⟨last, hlast, heq⟩ := ih hrest
    rw [withoutStrangers, hstep]
    dsimp only
    split
    · rename_i hstranger
      obtain ⟨answer, hanswer⟩ := step_stranger crypto server face platform hstranger
      obtain rfl := Option.some.inj (hstep.symm.trans hanswer)
      obtain ⟨last', hlast', heq'⟩ := run_quiet hlast
      exact ⟨last', hlast', heq'.trans heq⟩
    · exact ⟨last, Run.cons.mpr ⟨next, hstep, hlast⟩, heq⟩

end

/-! ### A launch -/

/-- A client that the host knows launches a window that is shown. -/
def launching : Request where
  peer := some (some [2])
  path := "/launch".toList
  query := [("appid".toList, "1".toList), ("mode".toList, "1920x1080x0".toList),
    ("rikey".toList, Xml.encodeHex (List.replicate 16 7)), ("rikeyid".toList, "-1".toList)]
  address := ⟨"192.168.1.2".toList, false⟩
  secret := Vector.replicate 16 0
  drawn := Vector.replicate 16 0
  random := Vector.replicate 16 1
  connectData := 5

/-- A stranger asks for the same before it. -/
def launchingEvents : List Event :=
  [.shows 1 "Game".toList, .request { launching with peer := some (some [3]) }, .request launching]

def plainPlatform : Platform where
  gcm := ⟨fun _ _ m => (List.replicate 16 0, m), fun _ _ c _ => some c⟩
  reading := ⟨fun _ => [], id, fun x _ _ => x⟩

/-- A host that knows one client, and shows a window. -/
def plainFace : Face := ⟨"PC".toList, "1".toList, 1, 47984, 48010⟩

def launchingStep (host : GameStreamHost) (e : Event) : Option GameStreamHost :=
  host.step plainCryptography.toCryptography (plainIdentity 1).toCredentials plainFace plainPlatform e

/-- Its launch is of the one request of the client that the host knows. -/
theorem launches_are_granted_launching : ∃ host launch past before request rest cert,
    launchingEvents.foldlM launchingStep (opened [[2]] [1]) = some host ∧
      host.server.launches = [launch] ∧ launch.app = 1 ∧ launch.fps = 60 ∧ host.keyIds = [0xffffffff] ∧
      launchingEvents = past ++ .request request :: rest ∧ past.foldlM launchingStep (opened [[2]] [1]) = some before ∧
      request.peer = some (some cert) ∧ (cert ∈ [[2]] ∨ ∃ seen event xml behind,
        before.pairings.log = seen ++ (event, .answered xml (some cert)) :: behind) := by
  have hrun : (launchingEvents.foldlM launchingStep (opened [[2]] [1])).map (fun host =>
      (host.server.launches.map fun launch => (launch.app, launch.fps), host.keyIds)) =
        some ([(1, 60)], [0xffffffff]) := by
    decide +kernel
  obtain ⟨host, hhost, heq⟩ := Option.map_eq_some_iff.mp hrun
  obtain ⟨hlaunches, hkeyIds⟩ := Prod.mk.inj heq
  obtain ⟨launch, rest, hlaunch, hfirst, hrest⟩ := List.map_eq_cons_iff.mp hlaunches
  obtain rfl := List.map_eq_nil_iff.mp hrest
  obtain ⟨happ, hfps⟩ := Prod.mk.inj hfirst
  obtain ⟨past, before, request, rest, keyId, cert, hevents, hpast, -, -, -, -, hpeer, hcert⟩ :=
    (launches_are_granted hhost).1 0 launch (by rw [hlaunch]; rfl)
  refine ⟨host, launch, past, before, request, rest, cert, hhost, hlaunch, happ, hfps, hkeyIds, hevents, hpast, hpeer,
    hcert.imp_right ?_⟩
  rintro ⟨seen, event, xml, behind, hlog, -, -⟩
  exact ⟨seen, event, xml, behind, hlog⟩

/-- And it is made without the stranger's request too. -/
theorem strangers_leave_no_trace_launching : ∃ host host',
    launchingEvents.foldlM launchingStep (opened [[2]] [1]) = some host ∧
      [.shows 1 "Game".toList, .request launching].foldlM launchingStep (opened [[2]] [1]) = some host' ∧
      host'.quiet none = host.quiet none := by
  have hrun : (launchingEvents.foldlM launchingStep (opened [[2]] [1])).isSome = true := by decide +kernel
  obtain ⟨host, hhost⟩ := Option.isSome_iff_exists.mp hrun
  obtain ⟨host', hhost', heq⟩ := strangers_leave_no_trace hhost
  have hknown : withoutStrangers plainCryptography.toCryptography (plainIdentity 1).toCredentials plainFace
      plainPlatform (opened [[2]] [1]) launchingEvents = [.shows 1 "Game".toList, .request launching] := by
    rfl
  rw [hknown] at hhost'
  exact ⟨host, host', hhost, hhost', heq⟩

end GameStreamHost

end WindowCast.GameStream
