import CheviotKernel.Fs.Msg

namespace CheviotKernel.Messages

open Linked CheviotKernel.Lists Runs

section

variable {cfg : Config} {s s' : State} {port : Option PortId} {msgid status : Int} {p : PortId} {k : MsgId}
  {a : Action} {ls : Port → List MsgId}

section

variable (cfg : Config) (s : State)

def Careful : Action → Prop
  | .replymsg port msgid _ _ _ => ∀ p ∈ port, ∀ k ∈ msgidToMsg cfg s p msgid,
      queued s p k = false ∧ ∀ x ∈ s.copying, x.2 ≠ k
  | .readmsg port msgid _ => ∀ p ∈ port, ∀ k ∈ msgidToMsg cfg s p msgid, queued s p k = false
  | .writemsg port msgid _ => ∀ p ∈ port, ∀ k ∈ msgidToMsg cfg s p msgid, queued s p k = false
  | _ => True

instance (a : Action) : Decidable (Careful cfg s a) := by
  cases a <;> unfold Careful <;> infer_instance

def found (port : Option PortId) (msgid : Int) : Option (PortId × MsgId) :=
  port.bind fun p => (msgidToMsg cfg s p msgid).map fun k => (p, k)

def touched : Action → Option (PortId × MsgId)
  | .replymsg port msgid _ rep sized => if rep.isSome = true ∧ sized = false then none else found cfg s port msgid
  | .readmsg port msgid _ => found cfg s port msgid
  | .writemsg port msgid _ => found cfg s port msgid
  | .copyChunk i => s.copying[i]?
  | _ => none

def Rejected : Action → Prop
  | .replymsg port msgid status rep sized => sysReplymsg cfg s port msgid status rep sized = (s, .error .einval)
  | .readmsg port msgid seeks => sysReadmsg cfg s port msgid seeks = (s, .error .einval)
  | .writemsg port msgid seeks => sysWritemsg cfg s port msgid seeks = (s, .error .einval)
  | _ => True

def Names : Action → Prop
  | .replymsg port msgid _ _ _ => ∃ p ∈ port, ∃ k, Open s p k ∧ ((s.msg k).msgid : Int) = msgid
  | .readmsg port msgid _ => ∃ p ∈ port, ∃ k, Open s p k ∧ ((s.msg k).msgid : Int) = msgid
  | .writemsg port msgid _ => ∃ p ∈ port, ∃ k, Open s p k ∧ ((s.msg k).msgid : Int) = msgid
  | _ => True

end

structure Identity (cfg : Config) (s : State) (a : Action) : Prop where
  touches : ∀ p k, touched cfg s a = some (p, k) → Open s p k
  rejects : ¬Names s a → Rejected cfg s a

structure Guarded (s : State) : Prop where
  inv : ∃ ls, Inv (fun _ => True) s ls
  copying : ∀ x ∈ s.copying, Open s x.1 x.2

theorem found_eq_some : found cfg s port msgid = some (p, k) ↔ port = some p ∧ msgidToMsg cfg s p msgid = some k := by
  cases port with
  | none => simp [found]
  | some q =>
    simp only [found, Option.bind_some, Option.map_eq_some_iff, Prod.mk.injEq, Option.some.injEq]
    constructor
    · rintro ⟨j, hj, rfl, rfl⟩
      exact ⟨rfl, hj⟩
    · rintro ⟨rfl, hk⟩
      exact ⟨k, hk, rfl, rfl⟩

theorem bind_lookup_none (hf : found cfg s port msgid = none) :
    (port.bind fun p => msgidToMsg cfg s p msgid) = none := by
  simpa [found] using hf

theorem startCopy_refused {fits : Msg → Bool}
    (hf : found cfg s port msgid = none) : startCopy cfg s port msgid fits = (s, .error .einval) := by
  rcases startCopy_cases cfg s port msgid fits with he | ⟨p, k, hp, hk, -⟩
  · exact he
  · rw [found_eq_some.mpr ⟨hp, hk⟩] at hf
    exact absurd hf (by simp)

namespace Guarded

variable (h : Guarded s) (hq : ∀ p ∈ port, ∀ k ∈ msgidToMsg cfg s p msgid, queued s p k = false)
  (hc : Careful cfg s a)
include h

theorem open_of_found (hf : found cfg s port msgid = some (p, k))
    (hq : ∀ p ∈ port, ∀ k ∈ msgidToMsg cfg s p msgid, queued s p k = false) :
    Open s p k ∧ ((s.msg k).msgid : Int) = msgid := by
  obtain ⟨ls, hi⟩ := h.inv
  obtain ⟨rfl, hk⟩ := found_eq_some.mp hf
  refine ⟨hi.open_of_lookup hk (hq p rfl k hk), ?_⟩
  obtain ⟨t, rfl, -, ha, -⟩ := hi.lookup hk
  rw [ha.msgid]

theorem admitted (hc : Careful cfg s a) : Admitted (fun _ => True) cfg s a := by
  obtain ⟨ls, hi⟩ := h.inv
  cases a with
  | replymsg port msgid status rep sized => exact fun p hp k hk => (hi.open_of_lookup hk (hc p hp k hk).1).1
  | send => exact fun _ => trivial
  | finish | getmsg | readmsg | writemsg | copyChunk | copyReturn => trivial

include hq

theorem found_none
    (hn : ¬∃ p ∈ port, ∃ k, Open s p k ∧ ((s.msg k).msgid : Int) = msgid) : found cfg s port msgid = none := by
  by_contra hc
  obtain ⟨⟨p, k⟩, hf⟩ := Option.ne_none_iff_exists'.mp hc
  obtain ⟨rfl, -⟩ := found_eq_some.mp hf
  exact hn ⟨p, rfl, k, h.open_of_found hf hq⟩

theorem startCopy (fits : Msg → Bool) :
    ∀ x ∈ (startCopy cfg s port msgid fits).1.copying, Open (startCopy cfg s port msgid fits).1 x.1 x.2 := by
  obtain ⟨ls, hi⟩ := h.inv
  rcases startCopy_cases cfg s port msgid fits with he | ⟨p, k, hp, hk, he⟩
  · rw [he]
    exact h.copying
  rw [he]
  intro x hx
  rcases List.mem_cons.mp hx with rfl | hx
  · exact hi.open_of_lookup hk (hq p hp k hk)
  · exact h.copying x hx

omit hq

include hc

theorem identity : Identity cfg s a := by
  cases a with
  | replymsg port msgid status rep sized =>
    have hq : ∀ p ∈ port, ∀ k ∈ msgidToMsg cfg s p msgid, queued s p k = false := fun p hp k hk => (hc p hp k hk).1
    constructor
    · intro p k ht
      simp only [touched] at ht
      split_ifs at ht
      exact (h.open_of_found ht hq).1
    · intro hn
      exact sysReplymsg_refused (.inr (bind_lookup_none (h.found_none hq hn)))
  | readmsg port msgid seeks | writemsg port msgid seeks =>
    exact ⟨fun p k ht => (h.open_of_found ht hc).1, fun hn => startCopy_refused (h.found_none hc hn)⟩
  | copyChunk i =>
    refine ⟨fun p k ht => ?_, fun hn => absurd trivial hn⟩
    exact h.copying (p, k) (List.mem_of_getElem? ht)
  | send | finish | getmsg | copyReturn => exact ⟨fun p k ht => by simp [touched] at ht, fun hn => absurd trivial hn⟩

theorem copying_step (hs : step cfg s a = some s') : ∀ x ∈ s'.copying, Open s' x.1 x.2 := by
  obtain ⟨ls, hi⟩ := h.inv
  cases a with
  | send t p abort reply siovCnt riov =>
    obtain ⟨hg, rfl⟩ := guarded hs
    rw [ksendmsg_eq (hi.up _) (by rw [hi.head, ((hi.fine t).idle hg.2.2).2]; rfl)]
    exact h.copying
  | finish t =>
    simp only [step] at hs
    split at hs
    · rename_i k hw
      cases hs
      rw [hi.ksendmsgReturn_eq hw]
      exact h.copying
    · simp at hs
  | getmsg valid port =>
    cases hs
    rcases hi.sysGetmsg_cases valid port with heq | ⟨p, k, rest, L, -, -, heq⟩
    · rw [heq]
      exact h.copying
    · rw [heq]
      exact fun x hx => ⟨mem_push.mpr (.inl (h.copying x hx).1), (h.copying x hx).2⟩
  | replymsg port msgid status rep sized =>
    cases hs
    by_cases hv : rep.isSome = true ∧ sized = false
    · rw [sysReplymsg_refused (.inl hv)]
      exact h.copying
    cases hf : found cfg s port msgid with
    | none =>
      rw [sysReplymsg_refused (.inr (bind_lookup_none hf))]
      exact h.copying
    | some x =>
      obtain ⟨p, k⟩ := x
      obtain ⟨rfl, hk⟩ := found_eq_some.mp hf
      obtain ⟨t, hph, heq⟩ := hi.sysReplymsg_eq hk hv status
      rw [heq]
      intro x hx
      obtain ⟨hin, hnot⟩ := h.copying x hx
      refine ⟨hin, ?_⟩
      have hne : x.2 ≠ k := (hc p rfl k hk).2 x hx
      simpa [answer, Replied, hne] using hnot
  | readmsg port msgid seeks | writemsg port msgid seeks =>
    cases hs
    exact h.startCopy hc _
  | copyChunk i =>
    obtain ⟨-, rfl⟩ := guarded hs
    exact h.copying
  | copyReturn i =>
    cases hs
    intro x hx
    exact h.copying x (List.mem_of_mem_eraseIdx hx)

protected theorem step (hs : step cfg s a = some s') : Guarded s' := by
  obtain ⟨ls, hi⟩ := h.inv
  exact ⟨hi.step (h.admitted hc) hs, h.copying_step hc hs⟩

end Guarded

theorem identity_of_careful (cfg : Config) (s : State) (a : Action) (h : Reach (step cfg) (Careful cfg) Booted s)
    (hc : Careful cfg s a) : Identity cfg s a := by
  have hg : Guarded s := by
    apply Reach.invariant (P := Guarded) _ _ h
    · rintro s rfl
      exact ⟨⟨_, boot_inv⟩, by simp [boot]⟩
    · intro s a t hs hc ht
      exact hs.step hc ht
  exact hg.identity hc

def smallConfig : Config := ⟨2, 16, 14⟩

theorem identity_of_handed_out :
    ∃ s, Reach (step smallConfig) (Careful smallConfig) Booted s ∧
      touched smallConfig s (.replymsg (some 0) 1 5 none true) = some (0, 0) ∧ Open s 0 0 :=
  Reach.exists_of_run (Q := fun s => Careful smallConfig s (.replymsg (some 0) 1 5 none true) ∧
      touched smallConfig s (.replymsg (some 0) 1 5 none true) = some (0, 0))
    [.send 1 0 false false 1 none, .getmsg true (some 0), .readmsg (some 0) 1 true, .copyReturn 0] rfl
    (by decide) (by decide) fun s hr hq => ⟨hq.2, (identity_of_careful smallConfig s _ hr hq.1).touches 0 0 hq.2⟩

theorem reply_before_getmsg :
    ∃ s, Reach (step smallConfig) always Booted s ∧ (∀ p, s.received p = []) ∧
      ¬Identity smallConfig s (.replymsg (some 0) 1 5 none true) := by
  refine ⟨(ksendmsg boot 1 0 false false 1 none).1, Reach.next (Reach.start rfl) trivial (a := .send 1 0 false false 1 none) rfl, ?_, ?_⟩
  · exact fun _ => rfl
  · intro hi
    have ho := hi.touches 0 0 (by decide)
    exact absurd ho.1 (by decide)

def WellBehaved (s : State) : Action → Prop
  | .replymsg port msgid _ rep sized => ∃ p ∈ port, ∃ k ∈ s.received p, ¬Replied s k ∧ msgid = (s.msg k).msgid ∧
      ((s.msg k).reply = true → rep = some true) ∧ (rep.isSome = true → sized = true)
  | _ => True

instance (s : State) (a : Action) : Decidable (WellBehaved s a) := by
  cases a <;> unfold WellBehaved <;> infer_instance

def Resolved (cfg : Config) : Action → Prop
  | .send t _ _ _ _ _ => t < cfg.maxPid
  | _ => True

instance (cfg : Config) (a : Action) : Decidable (Resolved cfg a) := by
  cases a <;> unfold Resolved <;> infer_instance

def Served (cfg : Config) (s : State) (a : Action) : Prop := WellBehaved s a ∧ Resolved cfg a
  deriving Decidable

structure Protocol (cfg : Config) (s : State) : Prop where
  order : ∃ ls, Family s.link ls ∧ ∀ p, s.sent p = s.received p ++ ls (.server p)
  sentOnce : ∀ p, (s.sent p).Nodup
  sentApart : ∀ p q k, k ∈ s.sent p → k ∈ s.sent q → p = q
  repliedOnce : (s.replied.map Prod.fst).Nodup
  afterReceipt : ∀ x ∈ s.replied, ∃ p, x.1 ∈ s.received p
  returnedOnce : (s.returned.map Prod.fst).Nodup
  afterReply : ∀ x ∈ s.returned, x ∈ s.replied
  waits : ∀ p k, k ∈ s.sent p → ¬Returned s k → (s.thread (s.msg k).msgid).msg = some k
  receives : ∀ p, s.sent p ≠ s.received p → ∃ k, (sysGetmsg s true (some p)).2 = .ok (some k) ∧
    (sysGetmsg s true (some p)).1.received p = s.received p ++ [k]
  accepts : ∀ p k status rep sized, Open s p k → ((s.msg k).reply = true → rep = some true) →
    (rep.isSome = true → sized = true) → (k, status) ∈ (sysReplymsg cfg s (some p) (s.msg k).msgid status rep sized).1.replied
  returns : ∀ x ∈ s.replied, ¬Returned s x.1 →
    ∃ s', step cfg s (.finish (s.msg x.1).msgid) = some s' ∧ x ∈ s'.returned

def Known (cfg : Config) (t : Tid) : Prop := 0 < t ∧ t < cfg.maxPid

theorem Inv.lookup_open (h : Inv (Known cfg) s ls) (ho : Open s p k) : msgidToMsg cfg s p (s.msg k).msgid = some k := by
  obtain ⟨hph, hport⟩ := h.waiting (h.sent_of_received ho.1) ho.2
  obtain ⟨hpos, hlt⟩ := h.range (s.msg k).msgid (by simp [hph])
  have hm := ((h.fine _).asleep k hph).msg
  have hg : getThread cfg s (s.msg k).msgid = some (s.thread (s.msg k).msgid) := by
    have hb : ¬(((s.msg k).msgid : Int) ≤ 0 ∨ ((s.msg k).msgid : Int) ≥ cfg.maxPid) := by
      rintro (hc | hc)
      · exact absurd hpos (Nat.not_lt.mpr (by exact_mod_cast hc))
      · exact absurd hlt (Nat.not_lt.mpr (by exact_mod_cast hc))
    rw [getThread, if_neg hb]
    simp
  simp [msgidToMsg, hg, hm, hport]

theorem replyStatus_of_readable {m : Msg} {rep : Option Bool} (h : m.reply = true → rep = some true) :
    replyStatus cfg m status rep = status := by
  unfold replyStatus
  split_ifs with hm
  · rw [h hm]
  · rfl

theorem Inv.admitted (h : Inv (Known cfg) s ls) (hc : Served cfg s a) : Admitted (Known cfg) cfg s a := by
  cases a with
  | replymsg port msgid status rep sized =>
    obtain ⟨p, rfl, k, hk, hr, rfl, -, -⟩ := hc.1
    rintro q hq j hj
    cases hq
    obtain rfl := Option.some.inj ((h.lookup_open ⟨hk, hr⟩).symm.trans hj)
    exact hk
  | send => exact fun hpos => ⟨hpos, hc.2⟩
  | finish | getmsg | readmsg | writemsg | copyChunk | copyReturn => trivial

theorem Inv.protocol (h : Inv (Known cfg) s ls) : Protocol cfg s := by
  constructor
  · exact ⟨ls, h.family, h.queue⟩
  · exact h.nodup
  · exact fun p q k => h.apart
  · exact h.repliedOnce
  · exact fun x hx => (h.answered hx).1
  · exact h.returnedOnce
  · exact h.own
  · intro p k hk hd
    by_cases hr : Replied s k
    · obtain ⟨⟨k, v⟩, hv, rfl⟩ := List.mem_map.mp hr
      exact ((h.fine _).awake k ((h.answered hv).2 hd).1).msg
    · exact ((h.fine _).asleep k (h.waiting hk hr).1).msg
  · intro p hne
    cases hl : ls (.server p) with
    | nil =>
      rw [h.queue p, hl] at hne
      simp at hne
    | cons k rest =>
      obtain ⟨L, heq, -⟩ := h.sysGetmsg_head hl
      rw [heq]
      simp
  · intro p k status rep sized ho hrep hv
    have hok : ¬(rep.isSome = true ∧ sized = false) := fun hb => by simp [hv hb.1] at hb
    obtain ⟨t, -, heq⟩ := h.sysReplymsg_eq (h.lookup_open ho) hok status
    rw [heq, replyStatus_of_readable hrep]
    simp [answer]
  · rintro ⟨k, v⟩ hx hd
    obtain ⟨hph, rfl⟩ := (h.answered hx).2 hd
    refine ⟨Messages.ksendmsgReturn s (s.msg k).msgid k, by simp only [step, hph], ?_⟩
    rw [h.ksendmsgReturn_eq hph]
    simp

end

theorem protocol_of_served (cfg : Config) (s : State) (h : Reach (step cfg) (Served cfg) Booted s) : Protocol cfg s := by
  obtain ⟨ls, hi⟩ : ∃ ls, Inv (Known cfg) s ls := by
    apply Reach.invariant (P := fun s => ∃ ls, Inv (Known cfg) s ls) _ _ h
    · rintro s rfl
      exact ⟨_, boot_inv⟩
    · rintro s a t ⟨ls, hi⟩ hc hs
      exact hi.step (hi.admitted hc) hs
  exact hi.protocol

theorem protocol_of_two_requests :
    ∃ s, Reach (step ⟨3, 16, 14⟩) (Served ⟨3, 16, 14⟩) Booted s ∧ s.received 0 = [0, 1] ∧
      s.returned = [(0, 5), (1, 7)] ∧ (0, 5) ∈ s.replied ∧ (1, 7) ∈ s.replied := by
  refine Reach.exists_of_run (Q := fun s => s.received 0 = [0, 1] ∧ s.returned = [(0, 5), (1, 7)])
    [.send 1 0 false true 1 none, .send 2 0 false true 1 none, .getmsg true (some 0), .getmsg true (some 0),
      .replymsg (some 0) 2 7 (some true) true, .replymsg (some 0) 1 5 (some true) true, .finish 1, .finish 2] rfl
    (by decide) (by decide) fun s hr hq => ?_
  have hprotocol := protocol_of_served ⟨3, 16, 14⟩ s hr
  exact ⟨hq.1, hq.2, hprotocol.afterReply (0, 5) (by simp [hq.2]), hprotocol.afterReply (1, 7) (by simp [hq.2])⟩

theorem last_tid_never_answered :
    ∃ s, Reach (step smallConfig) (fun s a => WellBehaved s a) Booted s ∧ Open s 0 0 ∧ ¬Protocol smallConfig s := by
  refine Reach.exists_of_run (Q := fun s => Open s 0 0 ∧ (s.msg 0).reply = false ∧
      (0, 5) ∉ (sysReplymsg smallConfig s (some 0) (s.msg 0).msgid 5 none true).1.replied)
    [.send 2 0 false false 1 none, .getmsg true (some 0)] rfl (by decide) (by decide) fun s _ hq => ⟨hq.1, fun hp => ?_⟩
  exact hq.2.2 (hp.accepts 0 0 5 none true hq.1 (by simp [hq.2.1]) (by simp))

end CheviotKernel.Messages
