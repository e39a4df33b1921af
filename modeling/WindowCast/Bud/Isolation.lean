import WindowCast.Bud.Reassembly

/-!
# Streams do not meet

A reassembler keeps the streams apart: what it answers to the packets of one
stream depends on those packets alone, whatever arrives on the others.

## Main definitions

* `pushes` — the events that push the packets of a list.
* `ofStream` — the packets of one stream.
* `History.answers` — the packets, each with what its push returned.

## Main results

* `Reassembler.push_local` — a push reads its own stream only.
* `History.run_isolated` — **the packets of a stream are answered as if there
  were no others.**
-/

namespace WindowCast.Bud

/-- The events that push `packets`, in order. -/
def pushes (packets : List Packet) : List Event :=
  packets.map fun packet => .push packet.1 packet.2

/-- The packets of one stream. -/
def ofStream (stream : UInt16) (packets : List Packet) : List Packet :=
  packets.filter fun packet => packet.1.stream = stream

namespace Reassembler

/-- **A push reads its own stream only.**  On two reassemblers that agree on the
stream of a packet, its push returns the same and leaves the stream the same. -/
theorem push_local {r r' r₁ : Reassembler} {header : Header} {payload : List UInt8} {out : Pushed}
    (hsame : r.streams header.stream = r'.streams header.stream)
    (hpush : r.push header payload = some (out, r₁)) :
    ∃ r₁', r'.push header payload = some (out, r₁') ∧
      r₁.streams header.stream = r₁'.streams header.stream := by
  have hupdate : ∀ state d n, (r.update header.stream state d n).streams header.stream
      = (r'.update header.stream state d n).streams header.stream := by
    intro state d n
    rw [streams_update, streams_update, if_pos rfl, if_pos rfl]
  unfold push at hpush ⊢
  rw [← hsame]
  -- both pushes take the same way through, which ends in the reassembler or an update of it
  split at hpush
  · cases hpush
    exact ⟨_, rfl, hsame⟩
  · cases hpush
    exact ⟨_, rfl, hsame⟩
  simp only at hpush ⊢
  split at hpush
  · cases hpush
    rename_i hlate
    rw [if_pos hlate]
    exact ⟨_, rfl, hsame⟩
  rename_i hlate
  rw [if_neg hlate]
  split at hpush
  · cases hpush
  · cases hpush
    exact ⟨_, rfl, hupdate _ _ _⟩
  split at hpush
  · cases hpush
  split at hpush
  · cases hpush
  · cases hpush
    exact ⟨_, rfl, hupdate _ _ _⟩
  · cases hpush
    exact ⟨_, rfl, hupdate _ _ _⟩
  split at hpush
  · cases hpush
    rename_i hmissing
    rw [if_pos hmissing]
    exact ⟨_, rfl, hupdate _ _ _⟩
  · cases hpush
    rename_i hmissing
    rw [if_neg hmissing]
    exact ⟨_, rfl, hupdate _ _ _⟩

/-- The frame a push delivers is of the stream of its packet. -/
theorem stream_of_delivery {r r₁ : Reassembler} {header : Header} {payload : List UInt8}
    {out : Pushed} (hpush : r.push header payload = some (out, r₁)) :
    ∀ frame ∈ delivery out, frame.stream = header.stream := by
  intro frame hframe
  cases push_exit hpush with
  | delivered => exact Option.mem_some_iff.mp hframe ▸ rfl
  | _ => cases hframe

end Reassembler

namespace History

/-- The packets, each with what its push returned. -/
def answers (self : History) (packets : List Packet) : List (Packet × Pushed) :=
  packets.zip self.returned

theorem answers_concat {self : History} {packets : List Packet}
    (hlen : self.returned.length = packets.length) (r : Reassembler) (created : ℕ)
    (packet : Packet) (out : Pushed) :
    answers ⟨r, created, self.returned ++ [out]⟩ (packets ++ [packet])
      = self.answers packets ++ [(packet, out)] := by
  unfold answers
  rw [List.zip_append hlen.symm]
  rfl

/-- The runs with all packets and with those of `stream` went alike on `stream`. -/
structure Alike (stream : UInt16) (packets : List Packet) (h h' : History) : Prop where
  inv : h.Inv
  streams : h.reassembler.streams stream = h'.reassembler.streams stream
  length : h.returned.length = packets.length
  length' : h'.returned.length = (ofStream stream packets).length
  answers : (h.answers packets).filter (fun answer => answer.1.1.stream = stream)
    = h'.answers (ofStream stream packets)
  frames : h.frames.filter (fun frame => frame.stream = stream) = h'.frames

theorem alike_new (stream : UInt16) : Alike stream [] new new where
  inv := inv_new
  streams := rfl
  length := rfl
  length' := rfl
  answers := rfl
  frames := rfl

/-- One packet more: a packet of the stream is pushed in both runs, another one
in the first only. -/
theorem Alike.step {stream : UInt16} {packets : List Packet} {h h' : History}
    (halike : Alike stream packets h h') {packet : Packet}
    (hdecode : ∃ datagram, Header.decode datagram = .ok packet.1) :
    ∃ h₁ h₁', h.step (.push packet.1 packet.2) = some h₁ ∧
      (pushes (ofStream stream [packet])).foldlM step h' = some h₁' ∧
      Alike stream (packets ++ [packet]) h₁ h₁' := by
  obtain ⟨header, payload⟩ := packet
  obtain ⟨h₁, hstep, hinv⟩ := halike.inv.step (.push header payload) hdecode
  have hstep' := hstep
  unfold History.step at hstep'
  simp only at hstep'
  split at hstep'
  · cases hstep'
  rename_i out r hpush
  cases hstep'
  have hframes := Reassembler.stream_of_delivery hpush
  by_cases hs : header.stream = stream
  · subst hs
    obtain ⟨r', hpush', hsame⟩ := Reassembler.push_local halike.streams hpush
    have hof : ofStream header.stream [(header, payload)] = [(header, payload)] := by
      unfold ofStream
      rw [List.filter_singleton, decide_eq_true rfl]
      rfl
    have hmine : ofStream header.stream (packets ++ [(header, payload)])
        = ofStream header.stream packets ++ [(header, payload)] := by
      unfold ofStream at hof ⊢
      rw [List.filter_append, hof]
    refine ⟨_, ⟨r', h'.created + (h'.reassembler.creates header payload).toNat,
      h'.returned ++ [out]⟩, hstep, ?_, hinv, hsame, ?_, ?_, ?_, ?_⟩
    · rw [hof]
      refine Run.cons.mpr ⟨_, ?_, Run.nil.mpr rfl⟩
      rw [History.step]
      simp only
      rw [hpush']
    · rw [List.length_append, List.length_append, halike.length]
      rfl
    · rw [hmine, List.length_append, List.length_append, halike.length']
      rfl
    · rw [answers_concat halike.length, hmine, answers_concat halike.length', List.filter_append,
        halike.answers, List.filter_singleton, decide_eq_true rfl]
      rfl
    · rw [frames_append, frames_append, List.filter_append]
      have hold := halike.frames
      unfold History.frames at hold
      rw [hold, List.filter_eq_self.mpr]
      intro frame hmem
      exact decide_eq_true (hframes frame (Option.mem_toList.mp hmem))
  · have hof : ofStream stream [(header, payload)] = [] := by
      unfold ofStream
      rw [List.filter_singleton, decide_eq_false hs]
      rfl
    have hmine : ofStream stream (packets ++ [(header, payload)]) = ofStream stream packets := by
      unfold ofStream at hof ⊢
      rw [List.filter_append, hof, List.append_nil]
    refine ⟨_, h', hstep, ?_, hinv, ?_, ?_, ?_, ?_, ?_⟩
    · rw [hof]
      exact Run.nil.mpr rfl
    · rw [Reassembler.streams_push_of_ne hpush (Ne.symm hs)]
      exact halike.streams
    · rw [List.length_append, List.length_append, halike.length]
      rfl
    · rw [hmine]
      exact halike.length'
    · rw [answers_concat halike.length, hmine, List.filter_append, halike.answers,
        List.filter_singleton, decide_eq_false hs]
      exact List.append_nil _
    · rw [frames_append, List.filter_append]
      have hold := halike.frames
      unfold History.frames at hold
      rw [hold, List.filter_eq_nil_iff.mpr]
      · exact List.append_nil _
      intro frame hmem
      rw [decide_eq_true_eq, hframes frame (Option.mem_toList.mp hmem)]
      exact hs

theorem alike_of_run (stream : UInt16) (packets : List Packet)
    (hpackets : ∀ packet ∈ packets, ∃ datagram, Header.decode datagram = .ok packet.1) :
    ∃ h h', run (pushes packets) = some h ∧ run (pushes (ofStream stream packets)) = some h' ∧
      Alike stream packets h h' := by
  induction packets using List.reverseRecOn with
  | nil => exact ⟨_, _, rfl, rfl, alike_new stream⟩
  | append_singleton packets packet ih =>
    obtain ⟨h, h', hrun, hrun', halike⟩ :=
      ih fun p hp => hpackets p (List.mem_append_left _ hp)
    obtain ⟨h₁, h₁', hstep, hstep', halike⟩ :=
      halike.step (hpackets packet (List.mem_append_right _ (List.mem_singleton_self _)))
    refine ⟨h₁, h₁', ?_, ?_, halike⟩
    · unfold run pushes at hrun ⊢
      rw [List.map_append]
      exact Run.snoc.mpr ⟨h, hrun, hstep⟩
    · unfold run pushes ofStream at hrun' ⊢
      rw [List.filter_append, List.map_append]
      exact Run.append.mpr ⟨h', hrun', hstep'⟩

/-- **The packets of a stream are answered as if there were no others.**
Whatever packets of other streams are pushed in between, and whatever they say:
both runs go through, every packet of `stream` gets the same answer in both, and
the frames delivered for `stream` are the same. -/
theorem run_isolated (stream : UInt16) (packets : List Packet)
    (hpackets : ∀ packet ∈ packets, ∃ datagram, Header.decode datagram = .ok packet.1) :
    ∃ h h', run (pushes packets) = some h ∧ run (pushes (ofStream stream packets)) = some h' ∧
      h.returned.length = packets.length ∧
      h'.returned.length = (ofStream stream packets).length ∧
      (h.answers packets).filter (fun answer => answer.1.1.stream = stream)
        = h'.answers (ofStream stream packets) ∧
      h.frames.filter (fun frame => frame.stream = stream) = h'.frames := by
  obtain ⟨h, h', hrun, hrun', halike⟩ := alike_of_run stream packets hpackets
  exact ⟨h, h', hrun, hrun', halike.length, halike.length', halike.answers, halike.frames⟩

/-- A frame of one packet between two packets of a hostile stream. -/
theorem run_isolated_between :
    ∃ h h', run (pushes [(⟨0, 1, 0, 0, 2, 0, 500⟩, [7]), (⟨0, 2, 0, 0, 1, 0, 500⟩, [8]),
        (⟨0, 1, 0, 0, 3, 0, 500⟩, [9])]) = some h ∧
      run (pushes [(⟨0, 2, 0, 0, 1, 0, 500⟩, [8])]) = some h' ∧
      h.frames.filter (fun frame => frame.stream = 2) = h'.frames := by
  obtain ⟨h, h', hrun, hrun', -, -, -, hframes⟩ := run_isolated 2
    [(⟨0, 1, 0, 0, 2, 0, 500⟩, [7]), (⟨0, 2, 0, 0, 1, 0, 500⟩, [8]),
      (⟨0, 1, 0, 0, 3, 0, 500⟩, [9])] (by
        intro packet hmem
        apply Header.exists_decode
        simp only [List.mem_cons, List.not_mem_nil, or_false] at hmem
        rcases hmem with rfl | rfl | rfl <;> decide)
  exact ⟨h, h', hrun, hrun', hframes⟩

end History

end WindowCast.Bud
