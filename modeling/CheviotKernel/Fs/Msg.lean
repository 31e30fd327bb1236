import CheviotKernel.Include.Lists
import CheviotKernel.Library.Runs
import Mathlib.Data.List.Perm.Subperm

namespace CheviotKernel.Messages

open Function Linked CheviotKernel.Lists Runs

abbrev Tid := ℕ

abbrev PortId := ℕ

abbrev MsgId := ℕ

structure Config where
  maxPid : ℕ
  iovMax : ℕ
  efault : Int

inductive Errno
  | einval
  | econnaborted
  deriving DecidableEq

inductive Port
  | server (p : PortId)
  | reply (t : Tid)
  deriving DecidableEq

structure Msg where
  msgid : Tid
  port : Option Port
  replyPort : Tid
  abort : Bool
  reply : Bool
  siovCnt : ℕ
  riov : Option ℕ
  replyStatus : Int

inductive Phase
  | idle
  | asleep (k : MsgId)
  | awake (k : MsgId)
  deriving DecidableEq

structure Thread where
  msg : Option MsgId
  phase : Phase
  deriving DecidableEq

-- copying holds the sys_readmsg and sys_writemsg calls between their lookup and their return, which may sleep in
-- a page fault of the user copy. The last five fields are history.
structure State where
  msg : MsgId → Msg
  thread : Tid → Thread
  link : Links Port MsgId
  shutdown : Port → Bool
  copying : List (PortId × MsgId)
  fresh : MsgId
  sent : PortId → List MsgId
  received : PortId → List MsgId
  replied : List (MsgId × Int)
  returned : List (MsgId × Int)

def State.setMsg (s : State) (k : MsgId) (m : Msg) : State := { s with msg := update s.msg k m }

def State.setThread (s : State) (t : Tid) (x : Thread) : State := { s with thread := update s.thread t x }

section Kernel

variable (cfg : Config) (s : State)

def getThread (tid : Int) : Option Thread :=
  if tid ≤ 0 ∨ tid ≥ cfg.maxPid then none else some (s.thread tid.toNat)

def msgidToMsg (p : PortId) (msgid : Int) : Option MsgId :=
  (getThread cfg s msgid).bind fun x => x.msg.filter fun k => (s.msg k).port = some (.server p)

def kputmsg (p : PortId) (k : MsgId) : State × Except Errno Unit :=
  if s.shutdown (.server p) then (s, .error .econnaborted)
  else
    ({ s with
        msg := update s.msg k { s.msg k with port := some (.server p) }
        link := dlistAddTail s.link (.server p) k
        sent := update s.sent p (s.sent p ++ [k]) }, .ok ())

def kgetmsg (port : Port) : State × Option MsgId :=
  if s.shutdown port then (s, none)
  else
    match s.link.head port with
    | some k => ({ s with link := dlistRemHead s.link port }, some k)
    | none => (s, none)

def kremovemsg (port : Port) (k : MsgId) : State := { s with link := dlistRemEntry s.link port k }

def taskWakeup (t : Tid) : State :=
  match (s.thread t).phase with
  | .asleep k => s.setThread t { s.thread t with phase := .awake k }
  | _ => s

def kreplymsg (k : MsgId) : State :=
  let t := (s.msg k).replyPort
  taskWakeup
    { s with
        msg := update s.msg k { s.msg k with port := some (.reply t) }
        link := dlistAddTail s.link (.reply t) k } t

def ksendmsg (t : Tid) (p : PortId) (abort reply : Bool) (siovCnt : ℕ) (riov : Option ℕ) :
    State × Except Errno Unit :=
  let k := s.fresh
  let s := { s with fresh := k + 1 }.setMsg k ⟨t, none, t, abort, reply, siovCnt, riov, 0⟩
  match kputmsg (s.setThread t ⟨some k, .idle⟩) p k with
  | (s, .error e) => (s, .error e)
  | (s, .ok ()) =>
    (s.setThread t ⟨some k, if s.link.head (.reply t) = none then .asleep k else .awake k⟩, .ok ())

def ksendmsgReturn (t : Tid) (k : MsgId) : State :=
  let s := (kgetmsg s (.reply t)).1
  { s with returned := s.returned ++ [(k, (s.msg k).replyStatus)] }.setThread t ⟨none, .idle⟩

def sysGetmsg (valid : Bool) (port : Option PortId) : State × Except Errno (Option MsgId) :=
  match valid, port with
  | true, some p =>
    match s.link.head (.server p) with
    | none => (s, .ok none)
    | some k =>
      if (s.msg k).abort = false then
        match kgetmsg s (.server p) with
        | (s, some k) => ({ s with received := update s.received p (s.received p ++ [k]) }, .ok (some k))
        | (s, none) => (s, .ok none)
      else
        ({ kremovemsg s (.server p) k with received := update s.received p (s.received p ++ [k]) },
          .ok (some k))
  | _, _ => (s, .error .einval)

def replyStatus (m : Msg) (status : Int) (rep : Option Bool) : Int :=
  if m.reply then
    match rep with
    | some true => status
    | _ => -cfg.efault
  else status

-- rep is the reply structure, none for NULL, and says whether copyin can read it; sized is rep_sz == sizeof(ioreply_t).
def sysReplymsg (port : Option PortId) (msgid status : Int) (rep : Option Bool) (sized : Bool) :
    State × Except Errno Unit :=
  if rep.isSome = true ∧ sized = false then (s, .error .einval)
  else
    match port.bind fun p => msgidToMsg cfg s p msgid with
    | none => (s, .error .einval)
    | some k =>
      let v := replyStatus cfg (s.msg k) status rep
      ({ kreplymsg (s.setMsg k { s.msg k with replyStatus := v }) k with replied := s.replied ++ [(k, v)] }, .ok ())

def startCopy (port : Option PortId) (msgid : Int) (fits : Msg → Bool) : State × Except Errno Unit :=
  match port.bind fun p => (msgidToMsg cfg s p msgid).map fun k => (p, k) with
  | none => (s, .error .einval)
  | some (p, k) =>
    if fits (s.msg k) then ({ s with copying := (p, k) :: s.copying }, .ok ())
    else (s, .error .einval)

def sysReadmsg (port : Option PortId) (msgid : Int) (seeks : Bool) : State × Except Errno Unit :=
  startCopy cfg s port msgid fun m => m.siovCnt ≠ 0 && m.siovCnt < cfg.iovMax && seeks

def sysWritemsg (port : Option PortId) (msgid : Int) (seeks : Bool) : State × Except Errno Unit :=
  startCopy cfg s port msgid fun m => m.riov.any fun n => n ≠ 0 && n ≤ cfg.iovMax && seeks

end Kernel

inductive Action
  | send (t : Tid) (p : PortId) (abort reply : Bool) (siovCnt : ℕ) (riov : Option ℕ)
  | finish (t : Tid)
  | getmsg (valid : Bool) (port : Option PortId)
  | replymsg (port : Option PortId) (msgid status : Int) (rep : Option Bool) (sized : Bool)
  | readmsg (port : Option PortId) (msgid : Int) (seeks : Bool)
  | writemsg (port : Option PortId) (msgid : Int) (seeks : Bool)
  | copyChunk (i : ℕ)
  | copyReturn (i : ℕ)

def step (cfg : Config) (s : State) : Action → Option State
  | .send t p abort reply siovCnt riov =>
    if 0 < t ∧ t ≤ cfg.maxPid ∧ (s.thread t).phase = .idle then some (ksendmsg s t p abort reply siovCnt riov).1
    else none
  | .finish t =>
    match (s.thread t).phase with
    | .awake k => some (ksendmsgReturn s t k)
    | _ => none
  | .getmsg valid port => some (sysGetmsg s valid port).1
  | .replymsg port msgid status rep sized => some (sysReplymsg cfg s port msgid status rep sized).1
  | .readmsg port msgid seeks => some (sysReadmsg cfg s port msgid seeks).1
  | .writemsg port msgid seeks => some (sysWritemsg cfg s port msgid seeks).1
  | .copyChunk i => if i < s.copying.length then some s else none
  | .copyReturn i => some { s with copying := s.copying.eraseIdx i }

def boot : State where
  msg := fun _ => ⟨0, none, 0, false, false, 0, none, 0⟩
  thread := fun _ => ⟨none, .idle⟩
  link := ⟨fun _ => none, fun _ => none, fun _ => none, fun _ => none⟩
  shutdown := fun _ => false
  copying := []
  fresh := 0
  sent := fun _ => []
  received := fun _ => []
  replied := []
  returned := []

def Booted (s : State) : Prop := s = boot

def Replied (s : State) (k : MsgId) : Prop := k ∈ s.replied.map Prod.fst
  deriving Decidable

def Returned (s : State) (k : MsgId) : Prop := k ∈ s.returned.map Prod.fst

def Open (s : State) (p : PortId) (k : MsgId) : Prop := k ∈ s.received p ∧ ¬Replied s k
  deriving Decidable

section Invariant

structure Asleep (s : State) (ls : Port → List MsgId) (t : Tid) (k : MsgId) : Prop where
  msg : (s.thread t).msg = some k
  msgid : (s.msg k).msgid = t
  replyPort : (s.msg k).replyPort = t
  empty : ls (.reply t) = []
  sent : ∃ p, (s.msg k).port = some (.server p) ∧ k ∈ s.sent p
  unreplied : ¬Replied s k

structure Awake (s : State) (ls : Port → List MsgId) (t : Tid) (k : MsgId) : Prop where
  msg : (s.thread t).msg = some k
  msgid : (s.msg k).msgid = t
  port : (s.msg k).port = some (.reply t)
  only : ls (.reply t) = [k]
  replied : (k, (s.msg k).replyStatus) ∈ s.replied
  unreturned : ¬Returned s k

structure Fine (s : State) (ls : Port → List MsgId) (t : Tid) : Prop where
  idle : (s.thread t).phase = .idle → (s.thread t).msg = none ∧ ls (.reply t) = []
  asleep : ∀ k, (s.thread t).phase = .asleep k → Asleep s ls t k
  awake : ∀ k, (s.thread t).phase = .awake k → Awake s ls t k

structure Inv (ok : Tid → Prop) (s : State) (ls : Port → List MsgId) : Prop where
  family : Family s.link ls
  up : ∀ port, s.shutdown port = false
  fine : ∀ t, Fine s ls t
  range : ∀ t, (s.thread t).phase ≠ .idle → ok t
  queue : ∀ p, s.sent p = s.received p ++ ls (.server p)
  nodup : ∀ p, (s.sent p).Nodup
  apart : ∀ {p q k}, k ∈ s.sent p → k ∈ s.sent q → p = q
  old : ∀ {p k}, k ∈ s.sent p → k < s.fresh
  waiting : ∀ {p k}, k ∈ s.sent p → ¬Replied s k →
    (s.thread (s.msg k).msgid).phase = .asleep k ∧ (s.msg k).port = some (.server p)
  answered : ∀ {k v}, (k, v) ∈ s.replied → (∃ p, k ∈ s.received p) ∧
    (¬Returned s k → (s.thread (s.msg k).msgid).phase = .awake k ∧ (s.msg k).replyStatus = v)
  repliedOnce : (s.replied.map Prod.fst).Nodup
  returnedOnce : (s.returned.map Prod.fst).Nodup
  own : ∀ x ∈ s.returned, x ∈ s.replied

variable {ok : Tid → Prop} {cfg : Config} {s s' : State} {ls ls' : Port → List MsgId} {t u : Tid} {p q : PortId}
  {k : MsgId} {msgid status : Int} {rest : List MsgId} {rep : Option Bool} {sized abort reply : Bool}
  {port : Option PortId} {j i : Port} {a b : Phase}

theorem Fine.congr (h : Fine s ls t) (ht : s'.thread t = s.thread t) (hl : ls' (.reply t) = ls (.reply t))
    (hm : ∀ k, (s.thread t).phase = .asleep k ∨ (s.thread t).phase = .awake k → s'.msg k = s.msg k)
    (hs : ∀ k p, k ∈ s.sent p → k ∈ s'.sent p)
    (hr : ∀ k, (s.thread t).phase = .asleep k → Replied s' k → Replied s k)
    (hr' : ∀ x ∈ s.replied, x ∈ s'.replied)
    (hd : ∀ k, (s.thread t).phase = .awake k → Returned s' k → Returned s k) : Fine s' ls' t := by
  constructor
  · rw [ht, hl]
    exact h.idle
  · intro k hk
    rw [ht] at hk
    have ha := h.asleep k hk
    have hmk := hm k (.inl hk)
    obtain ⟨p, hp, hsent⟩ := ha.sent
    refine ⟨ht ▸ ha.msg, hmk ▸ ha.msgid, hmk ▸ ha.replyPort, hl ▸ ha.empty, ⟨p, hmk ▸ hp, hs k p hsent⟩, ?_⟩
    exact fun hc => ha.unreplied (hr k hk hc)
  · intro k hk
    rw [ht] at hk
    have ha := h.awake k hk
    have hmk := hm k (.inr hk)
    refine ⟨ht ▸ ha.msg, hmk ▸ ha.msgid, hmk ▸ ha.port, hl ▸ ha.only, ?_, fun hc => ha.unreturned (hd k hk hc)⟩
    rw [hmk]
    exact hr' _ ha.replied

theorem mem_push {f : PortId → List MsgId} {j : MsgId} : j ∈ update f p (f p ++ [k]) q ↔ j ∈ f q ∨ q = p ∧ j = k := by
  by_cases hq : q = p
  · subst hq
    simp
  · simp [hq]

theorem ne_of_phase (hu : (s.thread u).phase = a) (ht : (s.thread t).phase = b) (hab : a ≠ b) : u ≠ t := by
  rintro rfl
  exact hab (hu.symm.trans ht)

theorem msgidToMsg_eq_some (h : msgidToMsg cfg s p msgid = some k) :
    ∃ t : Tid, msgid = t ∧ (s.thread t).msg = some k ∧ (s.msg k).port = some (.server p) := by
  unfold msgidToMsg getThread at h
  split_ifs at h with hb
  · simp at h
  · simp only [Option.bind_some, Option.filter_eq_some_iff, decide_eq_true_eq] at h
    exact ⟨msgid.toNat, by omega, h.1, h.2⟩

theorem addTail_head_of_ne (L : Links Port MsgId) (hj : j ≠ i) : (dlistAddTail L i k).head j = L.head j := by
  rw [addTail_eq_splice, splice_head, if_neg (fun hc => hj hc.1)]

theorem ksendmsg_eq {siovCnt : ℕ} {riov : Option ℕ} (hup : s.shutdown (.server p) = false)
    (hh : s.link.head (.reply t) = none) :
    (ksendmsg s t p abort reply siovCnt riov).1 =
      { s with
        msg := update s.msg s.fresh ⟨t, some (.server p), t, abort, reply, siovCnt, riov, 0⟩
        thread := update s.thread t ⟨some s.fresh, .asleep s.fresh⟩
        link := dlistAddTail s.link (.server p) s.fresh
        fresh := s.fresh + 1
        sent := update s.sent p (s.sent p ++ [s.fresh]) } := by
  simp [ksendmsg, kputmsg, State.setMsg, State.setThread, hup, addTail_head_of_ne, hh]

def answer (s : State) (t : Tid) (k : MsgId) (v : Int) : State :=
  { s with
    msg := update s.msg k { s.msg k with replyStatus := v, port := some (.reply t) }
    link := dlistAddTail s.link (.reply t) k
    thread := update s.thread t { s.thread t with phase := .awake k }
    replied := s.replied ++ [(k, v)] }

theorem sysReplymsg_refused
    (hv : (rep.isSome = true ∧ sized = false) ∨ (port.bind fun p => msgidToMsg cfg s p msgid) = none) :
    sysReplymsg cfg s port msgid status rep sized = (s, .error .einval) := by
  unfold sysReplymsg
  split_ifs with hc
  · rfl
  · rw [hv.resolve_left hc]

theorem startCopy_cases (cfg : Config) (s : State) (port : Option PortId) (msgid : Int) (fits : Msg → Bool) :
    startCopy cfg s port msgid fits = (s, .error .einval) ∨
      ∃ p k, port = some p ∧ msgidToMsg cfg s p msgid = some k ∧
        startCopy cfg s port msgid fits = ({ s with copying := (p, k) :: s.copying }, .ok ()) := by
  unfold startCopy
  cases port with
  | none => exact .inl rfl
  | some p =>
    cases hk : msgidToMsg cfg s p msgid with
    | none =>
      simp [hk]
    | some k =>
      cases hf : fits (s.msg k) with
      | false =>
        simp [hk]
      | true =>
        right
        exact ⟨p, k, rfl, hk, by simp [hk, hf]⟩

def queued (s : State) (p : PortId) (k : MsgId) : Bool :=
  walk s.link.next (· = k) (s.fresh + 1) (s.link.head (.server p)) = some (some k)

theorem boot_inv : Inv ok boot fun _ => [] := by
  constructor
  · exact Family.empty
  · exact fun _ => rfl
  · exact fun t => ⟨fun _ => ⟨rfl, rfl⟩, fun k hk => Phase.noConfusion hk, fun k hk => Phase.noConfusion hk⟩
  · exact fun t ht => absurd rfl ht
  · exact fun _ => rfl
  all_goals simp [boot]

def Admitted (ok : Tid → Prop) (cfg : Config) (s : State) : Action → Prop
  | .send t _ _ _ _ _ => 0 < t → ok t
  | .replymsg port msgid _ _ _ => ∀ p ∈ port, ∀ k ∈ msgidToMsg cfg s p msgid, k ∈ s.received p
  | _ => True

section

variable (h : Inv ok s ls) (hk : msgidToMsg cfg s p msgid = some k) (hw : (s.thread t).phase = .awake k)
include h

namespace Inv

theorem head (port : Port) : s.link.head port = (ls port).head? := (h.family.spells port).head

theorem sent_of_received (hk : k ∈ s.received p) : k ∈ s.sent p := by
  rw [h.queue p]
  exact List.mem_append_left _ hk

theorem sent_of_replied (hk : Replied s k) : ∃ p, k ∈ s.sent p := by
  obtain ⟨⟨k, v⟩, hv, rfl⟩ := List.mem_map.mp hk
  obtain ⟨⟨p, hp⟩, -⟩ := h.answered hv
  exact ⟨p, h.sent_of_received hp⟩

theorem replied_of_listed (hk : k ∈ ls (.reply t)) : Replied s k := by
  cases hp : (s.thread t).phase with
  | idle => simp [((h.fine t).idle hp).2] at hk
  | asleep j => simp [((h.fine t).asleep j hp).empty] at hk
  | awake j =>
    have ha := (h.fine t).awake j hp
    obtain rfl : k = j := by simpa [ha.only] using hk
    exact List.mem_map.mpr ⟨_, ha.replied, rfl⟩

theorem off (hr : ¬Replied s k) (hs : ∀ p, k ∉ ls (.server p)) (port : Port) : k ∉ ls port := by
  cases port with
  | server p => exact hs p
  | reply t => exact fun hk => hr (h.replied_of_listed hk)

theorem not_listed (hk : k ∈ s.received p) (q : PortId) : k ∉ ls (.server q) := by
  intro hq
  obtain rfl : p = q := h.apart (h.sent_of_received hk) (by rw [h.queue q]; exact List.mem_append_right _ hq)
  have hnd := h.nodup p
  rw [h.queue p] at hnd
  exact (List.nodup_append.mp hnd).2.2 k hk k hq rfl

theorem live_lt (hp : (s.thread t).phase = .asleep k ∨ (s.thread t).phase = .awake k) : k < s.fresh := by
  rcases hp with hp | hp
  · obtain ⟨p, -, hs⟩ := ((h.fine t).asleep k hp).sent
    exact h.old hs
  · obtain ⟨p, hs⟩ := h.sent_of_replied (List.mem_map.mpr ⟨_, ((h.fine t).awake k hp).replied, rfl⟩)
    exact h.old hs

theorem not_replied_fresh : ¬Replied s s.fresh := by
  intro hc
  obtain ⟨q, hq⟩ := h.sent_of_replied hc
  exact absurd (h.old hq) (lt_irrefl _)

theorem fresh_off (port : Port) : s.fresh ∉ ls port := by
  apply h.off h.not_replied_fresh
  intro p hp
  exact absurd (h.old (by rw [h.queue p]; exact List.mem_append_right _ hp)) (lt_irrefl _)

theorem ksendmsg (hi : (s.thread t).phase = .idle) (hok : ok t) (p : PortId)
    (abort reply : Bool) (siovCnt : ℕ) (riov : Option ℕ) :
    ∃ ls', Inv ok (ksendmsg s t p abort reply siovCnt riov).1 ls' := by
  have hnil := ((h.fine t).idle hi).2
  rw [ksendmsg_eq (h.up _) (by rw [h.head, hnil]; rfl)]
  refine ⟨update ls (.server p) (ls (.server p) ++ [s.fresh]), ?_⟩
  constructor
  · exact family_addTail h.family h.fresh_off
  · exact h.up
  · intro u
    by_cases hu : u = t
    · subst hu
      constructor
      · simp
      · intro k hk
        obtain rfl : s.fresh = k := by simpa using hk
        exact ⟨by simp, by simp, by simp, by simpa using hnil, ⟨p, by simp, by simp⟩, h.not_replied_fresh⟩
      · simp
    · refine (h.fine u).congr (by simp [hu]) (by simp) ?_ (fun _ _ hq => mem_push.mpr (.inl hq)) (fun _ _ => id)
        (fun _ => id) (fun _ _ => id)
      intro k hk
      have hne : k ≠ s.fresh := (h.live_lt hk).ne
      simp [hne]
  · intro u hu
    by_cases hut : u = t
    · exact hut ▸ hok
    · exact h.range u (by simpa [hut] using hu)
  · intro q
    by_cases hq : q = p
    · subst hq
      simp [h.queue q]
    · simpa [hq] using h.queue q
  · intro q
    by_cases hq : q = p
    · subst hq
      simpa [List.nodup_append, h.nodup q] using fun k hk => (h.old hk).ne
    · simpa [hq] using h.nodup q
  · intro q q' k hk hk'
    rcases mem_push.mp hk with ha | ⟨rfl, rfl⟩
    · rcases mem_push.mp hk' with hb | ⟨rfl, rfl⟩
      · exact h.apart ha hb
      · exact absurd (h.old ha) (lt_irrefl _)
    · rcases mem_push.mp hk' with hb | ⟨rfl, -⟩
      · exact absurd (h.old hb) (lt_irrefl _)
      · rfl
  · intro q k hk
    rcases mem_push.mp hk with ha | ⟨-, rfl⟩
    · exact Nat.lt_succ_of_lt (h.old ha)
    · exact Nat.lt_succ_self _
  · intro q k hk hr
    rcases mem_push.mp hk with hs | ⟨rfl, rfl⟩
    · obtain ⟨ha, hp⟩ := h.waiting hs hr
      have hkf : k ≠ s.fresh := (h.old hs).ne
      have hne : (s.msg k).msgid ≠ t := ne_of_phase ha hi (by simp)
      simp [hkf, hne, ha, hp]
    · simp
  · intro k v hv
    obtain ⟨⟨q, hq⟩, hw⟩ := h.answered hv
    refine ⟨⟨q, hq⟩, fun hd => ?_⟩
    have hkf : k ≠ s.fresh := (h.old (h.sent_of_received hq)).ne
    obtain ⟨ha, hs⟩ := hw hd
    have hne : (s.msg k).msgid ≠ t := ne_of_phase ha hi (by simp)
    simp [hkf, hne, ha, hs]
  · exact h.repliedOnce
  · exact h.returnedOnce
  · exact h.own

theorem take (hl : ls (.server p) = k :: rest) {L : Links Port MsgId} (hL : Family L (update ls (.server p) rest)) :
    Inv ok { s with link := L, received := update s.received p (s.received p ++ [k]) }
      (update ls (.server p) rest) := by
  refine { h with family := hL, fine := fun u => ?_, queue := fun q => ?_, answered := ?_ }
  · exact (h.fine u).congr rfl (by simp) (fun _ _ => rfl) (fun _ _ => id) (fun _ _ => id) (fun _ => id) (fun _ _ => id)
  · by_cases hq : q = p
    · subst hq
      simp [h.queue q, hl]
    · simpa [hq] using h.queue q
  · intro j v hv
    obtain ⟨⟨q, hq⟩, hr⟩ := h.answered hv
    exact ⟨⟨q, mem_push.mpr (.inl hq)⟩, hr⟩

theorem sysGetmsg_head (hl : ls (.server p) = k :: rest) :
    ∃ L, sysGetmsg s true (some p) =
        ({ s with link := L, received := update s.received p (s.received p ++ [k]) }, .ok (some k)) ∧
      Family L (update ls (.server p) rest) := by
  have hhead : s.link.head (.server p) = some k := by rw [h.head, hl]; rfl
  cases ha : (s.msg k).abort with
  | false =>
    refine ⟨dlistRemHead s.link (.server p), ?_, family_remHead h.family hl⟩
    simp [sysGetmsg, hhead, ha, kgetmsg, h.up]
  | true =>
    refine ⟨dlistRemEntry s.link (.server p) k, ?_, ?_⟩
    · simp [sysGetmsg, hhead, ha, kremovemsg]
    · have hL : Family _ (update ls (.server p) ([] ++ rest)) := family_remEntry h.family hl
      exact hL

protected theorem answer (hph : (s.thread t).phase = .asleep k) (hrec : k ∈ s.received p) (v : Int) :
    Inv ok (answer s t k v) (update ls (.reply t) (ls (.reply t) ++ [k])) := by
  have ha := (h.fine t).asleep k hph
  unfold answer
  have hother {u : Tid} {j : MsgId} (hu : u ≠ t) (hj : (s.msg j).msgid = u) : j ≠ k := by
    rintro rfl
    exact hu (hj.symm.trans ha.msgid)
  refine { h with
    family := family_addTail h.family (h.off ha.unreplied (h.not_listed hrec))
    fine := ?_, range := ?_, queue := h.queue, waiting := ?_, answered := ?_, repliedOnce := ?_, own := ?_ }
  · intro u
    by_cases hu : u = t
    · subst hu
      refine ⟨by simp, by simp, ?_⟩
      intro j hj
      obtain rfl : k = j := by simpa using hj
      refine ⟨by simpa using ha.msg, by simpa using ha.msgid, by simp, by simp [ha.empty], by simp, ?_⟩
      intro hc
      obtain ⟨x, hx, rfl⟩ := List.mem_map.mp hc
      exact ha.unreplied (List.mem_map.mpr ⟨x, h.own x hx, rfl⟩)
    · refine (h.fine u).congr (by simp [hu]) (by simp [hu]) ?_ (fun _ _ => id) ?_ (fun x hx => by simp [hx])
        (fun _ _ => id)
      · rintro j (hj | hj)
        · simp [hother hu ((h.fine u).asleep j hj).msgid]
        · simp [hother hu ((h.fine u).awake j hj).msgid]
      · intro j hj hr
        have hne : j ≠ k := hother hu ((h.fine u).asleep j hj).msgid
        simpa [Replied, hne] using hr
  · intro u hu
    by_cases hut : u = t
    · exact hut ▸ h.range t (by simp [hph])
    · exact h.range u (by simpa [hut] using hu)
  · intro q j hj hr
    have hr' : ¬Replied s j ∧ j ≠ k := by simpa [Replied] using hr
    obtain ⟨hp, hport⟩ := h.waiting hj hr'.1
    have hne : (s.msg j).msgid ≠ t := ne_of_phase hp hph (by simpa using hr'.2)
    simp [hr'.2, hne, hp, hport]
  · intro j w hw
    rcases List.mem_append.mp hw with hold | hnew
    · obtain ⟨hq, hr⟩ := h.answered hold
      refine ⟨hq, fun hd => ?_⟩
      have hjk : j ≠ k := by
        rintro rfl
        exact ha.unreplied (List.mem_map.mpr ⟨_, hold, rfl⟩)
      obtain ⟨hp, hs⟩ := hr hd
      have hne : (s.msg j).msgid ≠ t := ne_of_phase hp hph (by simp)
      simp [hjk, hne, hp, hs]
    · obtain ⟨rfl, rfl⟩ : j = k ∧ w = v := by simpa using hnew
      refine ⟨⟨p, hrec⟩, fun _ => ?_⟩
      simp [ha.msgid]
  · rw [List.map_append]
    exact List.concat_eq_append ▸ h.repliedOnce.concat ha.unreplied
  · intro x hx
    exact List.mem_append_left _ (h.own x hx)

theorem copying (c : List (PortId × MsgId)) : Inv ok { s with copying := c } ls :=
  { h with
    fine := fun u => (h.fine u).congr rfl rfl (fun _ _ => rfl) (fun _ _ => id) (fun _ _ => id) (fun _ => id) (fun _ _ => id) }

theorem queued_iff : queued s p k = true ↔ k ∈ ls (.server p) := by
  have hsub : ls (.server p) ⊆ List.range s.fresh := by
    intro j hj
    exact List.mem_range.mpr (h.old (by rw [h.queue p]; exact List.mem_append_right _ hj))
  have hlen := (List.Nodup.subperm (h.family.spells (.server p)).nodup hsub).length_le
  rw [List.length_range] at hlen
  rw [queued, (h.family.spells (.server p)).walk _ (by omega), decide_eq_true_eq, Option.some.injEq,
    List.find?_eq_some_iff_append]
  constructor
  · rintro ⟨-, as, bs, hab, -⟩
    simp [hab]
  intro hk
  obtain ⟨as, bs, hab⟩ := List.append_of_mem hk
  refine ⟨by simp, as, bs, hab, ?_⟩
  intro j hj
  have hnd := (h.family.spells (.server p)).nodup
  rw [hab] at hnd
  have hne := (List.nodup_append.mp hnd).2.2 j hj k (by simp)
  simpa using hne

end Inv

section

variable (valid : Bool) (port : Option PortId)

theorem Inv.sysGetmsg_cases : (sysGetmsg s valid port).1 = s ∨ ∃ p k rest L, ls (.server p) = k :: rest ∧
    Family L (update ls (.server p) rest) ∧ (sysGetmsg s valid port).1 =
      { s with link := L, received := update s.received p (s.received p ++ [k]) } := by
  cases valid with
  | false => exact .inl rfl
  | true =>
    cases port with
    | none => exact .inl rfl
    | some p =>
      cases hl : ls (.server p) with
      | nil =>
        have hhead : s.link.head (.server p) = none := by rw [h.head, hl]; rfl
        exact .inl (by simp [sysGetmsg, hhead])
      | cons k rest =>
        obtain ⟨L, heq, hL⟩ := h.sysGetmsg_head hl
        exact .inr ⟨p, k, rest, L, hl, hL, by rw [heq]⟩

protected theorem Inv.sysGetmsg : ∃ ls', Inv ok (sysGetmsg s valid port).1 ls' := by
  rcases h.sysGetmsg_cases valid port with heq | ⟨p, k, rest, L, hl, hL, heq⟩
  · exact ⟨ls, heq.symm ▸ h⟩
  · exact ⟨_, heq ▸ h.take hl hL⟩

theorem Inv.startCopy (msgid : Int) (fits : Msg → Bool) : Inv ok (startCopy cfg s port msgid fits).1 ls := by
  rcases startCopy_cases cfg s port msgid fits with he | ⟨p, k, -, -, he⟩
  · rw [he]
    exact h
  · rw [he]
    exact h.copying _

end

include hw

theorem Inv.ksendmsgReturn_eq :
    ksendmsgReturn s t k =
      { s with
        link := dlistRemHead s.link (.reply t)
        thread := update s.thread t ⟨none, .idle⟩
        returned := s.returned ++ [(k, (s.msg k).replyStatus)] } := by
  have hhead : s.link.head (.reply t) = some k := by rw [h.head, ((h.fine t).awake k hw).only]; rfl
  simp [ksendmsgReturn, kgetmsg, h.up, hhead, State.setThread]

theorem Inv.ksendmsgReturn : ∃ ls', Inv ok (ksendmsgReturn s t k) ls' := by
  have ha := (h.fine t).awake k hw
  rw [h.ksendmsgReturn_eq hw]
  refine ⟨update ls (.reply t) [], { h with
    family := family_remHead h.family ha.only
    fine := ?_, range := ?_, queue := h.queue, waiting := ?_, answered := ?_, returnedOnce := ?_, own := ?_ }⟩
  · intro u
    by_cases hu : u = t
    · subst hu
      exact ⟨by simp, by simp, by simp⟩
    refine (h.fine u).congr (by simp [hu]) (by simp [hu]) (fun _ _ => rfl) (fun _ _ => id) (fun _ _ => id)
      (fun _ => id) ?_
    intro j hj hr
    have hr' : Returned s j ∨ j = k := by simpa [Returned] using hr
    refine hr'.resolve_right ?_
    rintro rfl
    exact hu (((h.fine u).awake j hj).msgid.symm.trans ha.msgid)
  · intro u hu
    by_cases hut : u = t
    · subst hut
      simp at hu
    · exact h.range u (by simpa [hut] using hu)
  · intro q j hj hr
    obtain ⟨hp, hport⟩ := h.waiting hj hr
    have hne : (s.msg j).msgid ≠ t := ne_of_phase hp hw (by simp)
    simp [hne, hp, hport]
  · intro j v hv
    obtain ⟨hq, hr⟩ := h.answered hv
    refine ⟨hq, fun hd => ?_⟩
    have hd' : ¬Returned s j ∧ j ≠ k := by simpa [Returned] using hd
    obtain ⟨hp, hs⟩ := hr hd'.1
    have hne : (s.msg j).msgid ≠ t := ne_of_phase hp hw (by simpa using hd'.2)
    simp [hne, hp, hs]
  · rw [List.map_append]
    exact List.concat_eq_append ▸ h.returnedOnce.concat ha.unreturned
  · intro x hx
    rcases List.mem_append.mp hx with hx | hx
    · exact h.own x hx
    · exact List.mem_singleton.mp hx ▸ ha.replied

omit hw

include hk

theorem Inv.lookup : ∃ t : Tid, msgid = t ∧ (s.thread t).phase = .asleep k ∧ Asleep s ls t k ∧ k ∈ s.sent p := by
  obtain ⟨t, ht, hm, hp⟩ := msgidToMsg_eq_some hk
  cases hph : (s.thread t).phase with
  | idle => simp [((h.fine t).idle hph).1] at hm
  | asleep j =>
    have ha := (h.fine t).asleep j hph
    obtain rfl : j = k := Option.some.inj (ha.msg.symm.trans hm)
    obtain ⟨q, hq, hs⟩ := ha.sent
    obtain rfl : q = p := by simpa [hq] using hp
    exact ⟨t, ht, hph, ha, hs⟩
  | awake j =>
    have ha := (h.fine t).awake j hph
    obtain rfl : j = k := Option.some.inj (ha.msg.symm.trans hm)
    simp [ha.port] at hp

theorem Inv.sysReplymsg_eq (hv : ¬(rep.isSome = true ∧ sized = false)) (status : Int) :
    ∃ t, (s.thread t).phase = .asleep k ∧ sysReplymsg cfg s (some p) msgid status rep sized =
      (answer s t k (replyStatus cfg (s.msg k) status rep), .ok ()) := by
  obtain ⟨t, -, hph, ha, -⟩ := h.lookup hk
  refine ⟨t, hph, ?_⟩
  simp [sysReplymsg, hv, hk, kreplymsg, State.setMsg, ha.replyPort, taskWakeup, hph, State.setThread, answer]

theorem Inv.open_of_lookup (hq : queued s p k = false) : Open s p k := by
  obtain ⟨t, -, -, ha, hsent⟩ := h.lookup hk
  refine ⟨?_, ha.unreplied⟩
  rw [h.queue p] at hsent
  refine (List.mem_append.mp hsent).resolve_right ?_
  intro hl
  rw [h.queued_iff.mpr hl] at hq
  exact Bool.noConfusion hq

omit hk

theorem Inv.sysReplymsg
    (hr : ∀ p ∈ port, ∀ k ∈ msgidToMsg cfg s p msgid, k ∈ s.received p) (status : Int) (rep : Option Bool) (sized : Bool) :
    ∃ ls', Inv ok (sysReplymsg cfg s port msgid status rep sized).1 ls' := by
  by_cases hv : rep.isSome = true ∧ sized = false
  · rw [sysReplymsg_refused (.inl hv)]
    exact ⟨ls, h⟩
  cases hf : port.bind fun p => msgidToMsg cfg s p msgid with
  | none =>
    rw [sysReplymsg_refused (.inr hf)]
    exact ⟨ls, h⟩
  | some k =>
    obtain ⟨p, rfl, hk⟩ := Option.bind_eq_some_iff.mp hf
    obtain ⟨t, hph, heq⟩ := h.sysReplymsg_eq hk hv status
    rw [heq]
    exact ⟨_, h.answer hph (hr p rfl k hk) _⟩

protected theorem Inv.step {a : Action} (ha : Admitted ok cfg s a) (hs : step cfg s a = some s') :
    ∃ ls', Inv ok s' ls' := by
  cases a with
  | send t p abort reply siovCnt riov =>
    obtain ⟨hg, rfl⟩ := guarded hs
    exact h.ksendmsg hg.2.2 (ha hg.1) p abort reply siovCnt riov
  | finish t =>
    simp only [step] at hs
    split at hs
    · rename_i k hw
      cases hs
      exact h.ksendmsgReturn hw
    · simp at hs
  | getmsg valid port =>
    cases hs
    exact h.sysGetmsg valid port
  | replymsg port msgid status rep sized =>
    cases hs
    exact h.sysReplymsg ha status rep sized
  | readmsg port msgid seeks | writemsg port msgid seeks =>
    cases hs
    exact ⟨ls, h.startCopy port msgid _⟩
  | copyChunk i =>
    obtain ⟨-, rfl⟩ := guarded hs
    exact ⟨ls, h⟩
  | copyReturn i =>
    cases hs
    exact ⟨ls, h.copying _⟩

end

end Invariant

end CheviotKernel.Messages
