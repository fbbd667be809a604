import PrplHypervisor.Drivers.VirtualInterrupts
import PrplHypervisor.Guest.Delivery
import PrplHypervisor.Kernel.Libc

/-! The two guests that measure the latency of the inter-VM communication
(`bare-metal-apps/apps/ping/ping.c` and `bare-metal-apps/apps/pong/pong.c`).  `ping` sends the time,
and `pong` answers with how long that took to arrive.  Whatever the hypervisor, the interrupts and
the other VMs do in between, at most one message is under way, none is lost, and every answer that
`ping` takes into account is the one to its own last message. -/

namespace PrplHypervisor.Guest

open Arch Kernel Drivers Lib.Runs

/-- `calc_diff_time`. -/
def calcDiffTime (now old : UInt32) : UInt32 :=
  if now ≥ old then now - old else 0xffffffff - (old - now)

/-- `memcpy(buffer, &time, sizeof(uint32_t))`. -/
def storeTime (time : UInt32) (buffer : Nat → UInt8) : Nat → UInt8 :=
  fun i => if i < 4 then UInt8.ofNat (time.toNat / 256 ^ i) else buffer i

/-- `memcpy(&time, buffer, sizeof(uint32_t))`. -/
def loadTime (buffer : Nat → UInt8) : UInt32 :=
  UInt32.ofNat ((buffer 0).toNat + 256 * (buffer 1).toNat + 256 ^ 2 * (buffer 2).toNat +
    256 ^ 3 * (buffer 3).toNat)

/-- A buffer with a message that was received into it. -/
def received (bytes : List UInt8) (buffer : Nat → UInt8) : Nat → UInt8 :=
  fun i => bytes.getD i (buffer i)

def NUMBER_OF_ROUNDS : UInt32 := 10000

/-- The VM that `ping` sends to. -/
def PONG_ID : UInt32 := 2

/-- The sizes of the two guests' buffers. -/
def PING_BUFFER_SZ : UInt32 := 256
def PONG_BUFFER_SZ : UInt32 := 1024

/-- What `ping` takes into account of a round: when it started and ended, and the answer. -/
structure Round where
  timestart : UInt32
  timenow : UInt32
  oneWay : UInt32
  deriving DecidableEq

/-- The variables of `ping`; it is about to send, or in `ReceiveMessage`.  The sums and extremes
that it prints are functions of `rounds`. -/
structure Ping where
  messageBuffer : Nat → UInt8
  timestart : UInt32
  messageSize : UInt32
  i : UInt32
  receives : Bool
  rounds : List Round

/-- The variables of `pong`; it is in `ReceiveMessage`, or about to answer the VM `source` with a
message of `ret` bytes.  `served` are the times that it has read and those at which it has. -/
structure Pong where
  messageBuffer : Nat → UInt8
  answers : Option (UInt32 × UInt32)
  served : List (UInt32 × UInt32)

structure PingPong where
  net : Delivery
  ping : Ping
  pong : Pong

inductive PingPongEvent
  /-- A step of the kernel, a context switch, or a step of a guest's interrupt routine. -/
  | background (e : DeliveryEvent)
  /-- `ping` goes on to its next call, at the time `count`. -/
  | ping (count : UInt32)
  /-- `pong` goes on to its next call, at the time `count`. -/
  | pong (count : UInt32)

/-- The VCPU of `ping`, and where the buffers are. -/
structure PingPongPlaces where
  ping : VcpuPtr
  pingBuffer : UInt32
  pongBuffer : UInt32

/-- The VCPU of the VM `PONG_ID`. -/
def pongVcpu : VcpuPtr := 1

/-- `int32_t ret` is negative. -/
def isError (ret : UInt32) : Bool := ret.toInt32 < 0

/-- The value that a hypercall has left for the guest. -/
def Delivery.ret (p : Platform) (s : Delivery) : UInt32 :=
  moveFromPreviousGuestGPR p s.net.hv.cpu REG_V0

/-- The end of the loop over the rounds, and of the one over the sizes. -/
def Ping.nextRound (a : Ping) : Ping :=
  if a.i + 1 < NUMBER_OF_ROUNDS then { a with receives := false, i := a.i + 1 }
  else { a with
    receives := false
    i := 0
    messageSize := if a.messageSize + 64 > 256 then 64 else a.messageSize + 64 }

/-- `ping` up to the end of its next call, unless it is in the routine of the interrupt. -/
def pingStep (p : Platform) (quantum : UInt32) (places : PingPongPlaces) (count : UInt32)
    (s : PingPong) : Option PingPong :=
  let a := s.ping
  if s.net.routine places.ping ≠ none then some s
  else if a.receives then
    match receiveMessage (s.net.net.lists places.ping) PING_BUFFER_SZ true with
    | some ((ret, some (_, bytes)), _) =>
      (deliveryStep p quantum s.net (.receiveMessage places.ping PING_BUFFER_SZ true)).map
        fun net =>
        let a := { a with messageBuffer := received bytes a.messageBuffer }
        let a := if ¬isError ret ∧ ret ≠ 0 then
          { a with rounds := a.rounds ++ [⟨a.timestart, count, loadTime a.messageBuffer⟩] } else a
        { s with net := net, ping := a.nextRound }
    | _ => some s
  else
    let a := { a with timestart := count, messageBuffer := storeTime count a.messageBuffer }
    (deliveryStep p quantum s.net (.sendMessage places.ping PONG_ID places.pingBuffer a.messageSize
      a.messageBuffer)).map fun net =>
        { s with
          net := net
          ping := if isError (net.ret p) then a.nextRound else { a with receives := true } }

/-- `pong` up to the end of its next call, unless it is in the routine of the interrupt. -/
def pongStep (p : Platform) (quantum : UInt32) (places : PingPongPlaces) (count : UInt32)
    (s : PingPong) : Option PingPong :=
  let b := s.pong
  if s.net.routine pongVcpu ≠ none then some s
  else match b.answers with
  | none =>
    match receiveMessage (s.net.net.lists pongVcpu) PONG_BUFFER_SZ true with
    | some ((ret, some (source, bytes)), _) =>
      (deliveryStep p quantum s.net (.receiveMessage pongVcpu PONG_BUFFER_SZ true)).map fun net =>
        if isError ret then { s with net := net }
        else
          let buffer := received bytes b.messageBuffer
          let timesstart := loadTime buffer
          { s with
            net := net
            pong := {
              messageBuffer := storeTime (calcDiffTime count timesstart) buffer
              answers := some (source, ret)
              served := b.served ++ [(timesstart, count)] } }
    | _ => some s
  | some (source, ret) =>
    -- whether the message was sent is not checked
    (deliveryStep p quantum s.net (.sendMessage pongVcpu source places.pongBuffer ret
      b.messageBuffer)).map fun net => { s with net := net, pong := { b with answers := none } }

def pingPongStep (p : Platform) (quantum : UInt32) (places : PingPongPlaces) (s : PingPong) :
    PingPongEvent → Option PingPong
  | .background e => (deliveryStep p quantum s.net e).map fun net => { s with net := net }
  | .ping count => pingStep p quantum places count s
  | .pong count => pongStep p quantum places count s

/-- The steps of everything else: other VMs exchange messages among them, in whose buffers they fit,
and send none to the two. -/
def DeliveryEvent.Background (n : Nat) (places : PingPongPlaces) : DeliveryEvent → Prop
  | .sendMessage _ targetId _ _ _ => targetId ≠ UInt32.ofNat (places.ping + 1) ∧ targetId ≠ PONG_ID
  | .receiveMessage v bufsz _ => v < n ∧ MESSAGE_SZ ≤ bufsz ∧ v ≠ places.ping ∧ v ≠ pongVcpu
  | .irqIterate v _ => v < n
  | _ => True

instance DeliveryEvent.decidableBackground (n : Nat) (places : PingPongPlaces) :
    (e : DeliveryEvent) → Decidable (e.Background n places)
  | .irqIterate v _ => inferInstanceAs (Decidable (v < n))
  | .sendMessage .. => inferInstanceAs (Decidable (_ ∧ _))
  | .receiveMessage .. => inferInstanceAs (Decidable (_ ∧ _ ∧ _ ∧ _))
  | .kernel _ | .switchTo _ | .irqEnter _ => isTrue trivial

def PingPongEvent.Background (n : Nat) (places : PingPongPlaces) : PingPongEvent → Prop
  | .background e => e.Background n places
  | _ => True

instance PingPongEvent.decidableBackground (n : Nat) (places : PingPongPlaces) :
    (e : PingPongEvent) → Decidable (e.Background n places)
  | .background e => inferInstanceAs (Decidable (e.Background n places))
  | .ping _ | .pong _ => isTrue trivial

/-- The messages that were accepted for `v` and that its guest has not taken. -/
def Delivery.inFlight (s : Delivery) (v : VcpuPtr) : List Packet :=
  (s.accepted v).drop (s.dequeued v).length

/-- The messages that are under way between the two guests, the one that `pong` is about to answer
included. -/
def PingPong.underWay (places : PingPongPlaces) (s : PingPong) : Nat :=
  (s.net.inFlight places.ping).length + (s.net.inFlight pongVcpu).length +
    s.pong.answers.toList.length

/-! ### Times in messages -/

variable {p : Platform} {quantum : UInt32} {n : Nat} {v w : VcpuPtr}

theorem toNat_storeTime (time : UInt32) (buffer : Nat → UInt8) {i : Nat} (hi : i < 4) :
    (storeTime time buffer i).toNat = time.toNat / 256 ^ i % 256 := by
  rw [storeTime, if_pos hi]
  rfl

/-- A time that is stored is the one that is loaded. -/
theorem loadTime_storeTime {time : UInt32} {buffer buffer' : Nat → UInt8}
    (h : ∀ i < 4, buffer' i = storeTime time buffer i) : loadTime buffer' = time := by
  have hlt := time.toNat_lt
  rw [loadTime, h 0 (by decide), h 1 (by decide), h 2 (by decide), h 3 (by decide),
    toNat_storeTime _ _ (by decide), toNat_storeTime _ _ (by decide),
    toNat_storeTime _ _ (by decide), toNat_storeTime _ _ (by decide), ← UInt32.toNat_inj,
    UInt32.toNat_ofNat_of_lt' (by simp only [UInt32.size]; omega)]
  omega

/-- The first bytes of a message that was received are those that were sent. -/
theorem received_sent {size : Nat} {buffer buffer' : Nat → UInt8} {i : Nat} (hi : i < size) :
    received ((List.range size).map buffer) buffer' i = buffer i := by
  rw [received, List.getD_eq_getElem?_getD, List.getElem?_map, List.getElem?_range hi]
  rfl

theorem not_isError {ret : UInt32} (hpos : 0 < ret.toNat) (hle : ret ≤ MESSAGE_SZ) :
    isError ret = false := by
  have hlt : ret.toNat < 2 ^ 31 :=
    (UInt32.le_iff_toNat_le.mp hle).trans_lt (by decide)
  rw [isError, decide_eq_false_iff_not]
  exact Int32.not_lt.mpr (Int32.le_of_lt ((toInt32_pos_iff ret).mpr ⟨hpos, hlt⟩))

/-! ### VCPUs that were started -/

/-- A change that keeps the VCPUs that were started, and the one in execution started. -/
structure KeepsStarted (before after : Hv) : Prop where
  started : Started before → Started after
  init : ∀ v, (before.vcpus v).init = 0 → (after.vcpus v).init = 0

theorem KeepsStarted.refl (hv : Hv) : KeepsStarted hv hv := ⟨id, fun _ => id⟩

theorem KeepsStarted.trans {a b c : Hv} (hab : KeepsStarted a b) (hbc : KeepsStarted b c) :
    KeepsStarted a c :=
  ⟨fun h => hbc.started (hab.started h), fun v h => hbc.init v (hab.init v h)⟩

theorem KeepsStarted.same {hv hv' : Hv} (hexec : hv'.executing = hv.executing)
    (hinit : ∀ v, (hv'.vcpus v).init = (hv.vcpus v).init) : KeepsStarted hv hv' := by
  refine ⟨fun h v hv => ?_, fun v h => (hinit v).trans h⟩
  rw [hinit]
  exact h v (hexec ▸ hv)

theorem KeepsStarted.contextSwitch (p : Platform) (hv : Hv) (aux : Option VcpuPtr) :
    KeepsStarted hv (contextSwitch p hv aux) := by
  refine ⟨fun h => started_contextSwitch h p aux, fun v h => ?_⟩
  have hsave : ((contextSave p hv).vcpus v).init = 0 := by
    unfold contextSave
    cases hv.executing with
    | none => exact h
    | some w =>
      dsimp only
      split_ifs with hw
      · rw [Hv.setVcpu_apply]
        split_ifs with heq
        · exact hw
        · exact h
      · exact h
  unfold Kernel.contextSwitch contextRestore
  split_ifs
  · cases aux with
    | none => exact hsave
    | some w =>
      dsimp only
      rw [Hv.setVcpu_apply]
      split_ifs
      · rfl
      · exact hsave
  · exact h

theorem KeepsStarted.setGuestGPR (p : Platform) (hv : Hv) (reg : Nat) (value : UInt32) :
    KeepsStarted hv (setGuestGPR p hv reg value) := KeepsStarted.same rfl fun _ => rfl

theorem KeepsStarted.hypercall (p : Platform) (hv : Hv) (caller : VcpuPtr)
    (args : List (Nat × UInt32)) : KeepsStarted hv (hypercall p hv caller args) := by
  have hargs : ∀ (args : List (Nat × UInt32)) (hv' : Hv), KeepsStarted hv hv' →
      KeepsStarted hv (args.foldl (fun hv arg => Drivers.setGuestGPR p hv arg.1 arg.2) hv') := by
    intro args
    induction args with
    | nil => exact fun hv' h => h
    | cons arg args ih => exact fun hv' h => ih _ (h.trans (KeepsStarted.setGuestGPR p hv' _ _))
  exact hargs args _ (KeepsStarted.contextSwitch p hv (some caller))

theorem KeepsStarted.step {hv hv' : Hv} {e : Event} (h : Ready hv n)
    (hstep : step p quantum hv e = some hv') : KeepsStarted hv hv' := by
  cases e with
  | tick =>
    obtain ⟨l, hl, hholds⟩ := h.list
    rcases runScheduler_cases p quantum hholds (IsRotated.nodup_range hl) with
      ⟨_, hrun⟩ | ⟨_, pick, hv'', ho, hrun⟩
    · rw [Kernel.step, hrun] at hstep
      obtain rfl := Option.some.inj hstep
      exact KeepsStarted.same rfl fun _ => rfl
    · rw [Kernel.step, hrun] at hstep
      obtain rfl := Option.some.inj hstep
      have hcall : KeepsStarted hv hv'' :=
        KeepsStarted.same ho.executing_eq fun v => congrArg VcpuContext.init (ho.context v)
      exact (hcall.trans (KeepsStarted.contextSwitch p hv'' pick.vcpu)).trans
        (KeepsStarted.same rfl fun _ => rfl)
  | deliver target =>
    obtain rfl := Option.some.inj hstep
    refine KeepsStarted.same (fastInterruptDelivery_executing hv target) fun v => ?_
    obtain ⟨critical, heq⟩ := fastInterruptDelivery_vcpu hv target v
    rw [heq]
  | setState v state =>
    obtain rfl := Option.some.inj hstep
    refine KeepsStarted.same rfl fun w => ?_
    obtain ⟨s, heq⟩ := setState_vcpu hv v w state
    rw [heq]

theorem KeepsStarted.setVcpu (hv : Hv) (v : VcpuPtr) (vcpu : Vcpu)
    (h : vcpu.init = (hv.vcpus v).init) : KeepsStarted hv (hv.setVcpu v vcpu) := by
  refine KeepsStarted.same rfl fun w => ?_
  rw [Hv.setVcpu_apply]
  split_ifs with heq
  · rw [h, heq]
  · rfl

theorem SendOutcome.keepsStarted {hv hv' : Hv} {buffer : Nat → UInt8} {caller : VcpuPtr}
    {r : Option VcpuPtr} (h : SendOutcome p buffer hv n caller r hv') : KeepsStarted hv hv' := by
  cases h with
  | rejected code => exact KeepsStarted.setGuestGPR p hv _ _
  | full v mem init full =>
    have hset := KeepsStarted.setVcpu hv v { hv.vcpus v with
      guestclt2 := (hv.vcpus v).guestclt2 ||| (GUEST_INTERVM_INT <<< GUESTCLT2_GRIPL_SHIFT) } rfl
    exact hset.trans (KeepsStarted.setGuestGPR p _ _ _)
  | stored v mem init room size cpu guestctl2 =>
    have hset := KeepsStarted.setVcpu { hv with cpu := cpu } v { hv.vcpus v with
      messages := storeMessage (hv.vcpus v).messages (hv.vcpus caller).vm.id
        (moveFromPreviousGuestGPR p hv.cpu REG_A2) buffer
      guestclt2 := (hv.vcpus v).guestclt2 ||| (GUEST_INTERVM_INT <<< VI_SHIFT p) } rfl
    have hcpu : KeepsStarted hv { hv with cpu := cpu } := KeepsStarted.same rfl fun _ => rfl
    refine (hcpu.trans hset).trans (KeepsStarted.same (fastInterruptDelivery_executing _ v) ?_)
    intro w
    obtain ⟨critical, heq⟩ := fastInterruptDelivery_vcpu _ v w
    rw [heq]

theorem ipcRecv_keepsStarted {hv hv' : Hv} {msg : UInt32}
    {x : UInt32 × UInt32 × Option (List UInt8)} (h : ipcRecv p v msg hv = .ok (x, hv')) :
    KeepsStarted hv hv' := by
  obtain ⟨r, after, hcall, ho⟩ := intervmRecvMsg_outcome (p := p)
    (hypercall_executing p hv v [(REG_A0, msg)])
  have hcaller := KeepsStarted.hypercall p hv v [(REG_A0, msg)]
  simp only [ipcRecv, hcall, bind, Except.bind] at h
  obtain rfl := (Prod.mk.inj (Except.ok.inj h)).2
  apply hcaller.trans
  cases ho with
  | empty empty => exact KeepsStarted.setGuestGPR p _ _ _
  | received nonempty message head cpu size sourceId guestctl2 =>
    have hcpu : KeepsStarted (Drivers.hypercall p hv v [(REG_A0, msg)])
        { Drivers.hypercall p hv v [(REG_A0, msg)] with cpu := cpu } :=
      KeepsStarted.same rfl fun _ => rfl
    exact hcpu.trans (KeepsStarted.setVcpu _ v _ rfl)

theorem irqIteration_keepsStarted {slot : UInt32 → UInt32} {ret : UInt32} {s t : Net}
    {next : Option UInt32} (h : irqIteration p v slot ret s = some (next, t)) :
    KeepsStarted s.hv t.hv := by
  unfold irqIteration at h
  dsimp only at h
  split_ifs at h
  · cases hrecv : ipcRecv p v (slot (s.lists v).inIndex) s.hv with
    | error e =>
      simp only [hrecv] at h
      cases h
    | ok x =>
      obtain ⟨x, hv'⟩ := x
      have hkeeps := ipcRecv_keepsStarted hrecv
      simp only [hrecv] at h
      split_ifs at h
      · obtain rfl := (Prod.mk.inj (Option.some.inj h)).2
        exact hkeeps
      · obtain rfl := (Prod.mk.inj (Option.some.inj h)).2
        exact hkeeps
  · obtain rfl := (Prod.mk.inj (Option.some.inj h)).2
    exact KeepsStarted.refl _

/-! ### What a step of the network does to the channels -/

variable {s t : Delivery}

/-- A step that takes and accepts no message. -/
structure Quiet (s t : Delivery) : Prop where
  accepted : t.accepted = s.accepted
  dequeued : t.dequeued = s.dequeued
  keeps : KeepsStarted s.net.hv t.net.hv

/-- A step that leaves the messages of the two guests. -/
structure Leaves (places : PingPongPlaces) (s t : Delivery) : Prop where
  ping : t.inFlight places.ping = s.inFlight places.ping
  pong : t.inFlight pongVcpu = s.inFlight pongVcpu
  keeps : KeepsStarted s.net.hv t.net.hv

theorem Quiet.inFlight (h : Quiet s t) (v : VcpuPtr) : t.inFlight v = s.inFlight v := by
  rw [Delivery.inFlight, Delivery.inFlight, h.accepted, h.dequeued]

theorem Quiet.leaves {places : PingPongPlaces} (h : Quiet s t) : Leaves places s t :=
  ⟨h.inFlight _, h.inFlight _, h.keeps⟩

theorem inFlight_of_update {l : List Packet} {w : VcpuPtr}
    (haccepted : t.accepted = Function.update s.accepted v l) (hdequeued : t.dequeued = s.dequeued)
    (hne : w ≠ v) : t.inFlight w = s.inFlight w := by
  rw [Delivery.inFlight, haccepted, hdequeued, Function.update_of_ne hne]
  rfl

theorem inFlight_of_update_dequeued {l : List Packet} {w : VcpuPtr}
    (haccepted : t.accepted = s.accepted) (hdequeued : t.dequeued = Function.update s.dequeued v l)
    (hne : w ≠ v) : t.inFlight w = s.inFlight w := by
  rw [Delivery.inFlight, haccepted, hdequeued, Function.update_of_ne hne]
  rfl

/-- A message for another VM. -/
theorem sendMessage_leaves (h : Delivering s n) {places : PingPongPlaces} {caller : VcpuPtr}
    {targetId message size : UInt32} {buffer : Nat → UInt8}
    (hping : targetId ≠ UInt32.ofNat (places.ping + 1)) (hpong : targetId ≠ PONG_ID)
    (hstep : deliveryStep p quantum s (.sendMessage caller targetId message size buffer) = some t) :
    Leaves places s t := by
  set hv := hypercall p s.net.hv caller (sendArgs targetId message size) with hhv
  have hready : Ready hv n := h.ready.same (hypercall_same p s.net.hv caller _)
  obtain ⟨r, hv', hcall, ho⟩ := intervmSendMsg_outcome (p := p) hready
    (hypercall_executing p s.net.hv caller _) buffer
  have hkeeps : KeepsStarted s.net.hv hv' :=
    (KeepsStarted.hypercall p s.net.hv caller _).trans (SendOutcome.keepsStarted ho)
  simp only [deliveryStep, ← hhv, hcall] at hstep
  cases r with
  | none =>
    obtain rfl := Option.some.inj hstep
    apply Quiet.leaves
    exact ⟨rfl, rfl, hkeeps⟩
  | some v =>
    obtain rfl := Option.some.inj hstep
    have htarget : targetId = UInt32.ofNat (v + 1) := by
      have hfound := hready.id_of_found (intervmSendMsg_stored hcall).2.1
      rw [hhv, hypercall_sendTarget] at hfound
      exact hfound.2
    refine ⟨inFlight_of_update rfl rfl ?_, inFlight_of_update rfl rfl ?_, hkeeps⟩
    · rintro rfl
      exact hping htarget
    · rintro rfl
      exact hpong htarget

/-- A guest that receives leaves the messages of the others. -/
theorem receiveMessage_leaves {places : PingPongPlaces} {bufsz : UInt32} {block : Bool}
    (hping : v ≠ places.ping) (hpong : v ≠ pongVcpu)
    (hstep : deliveryStep p quantum s (.receiveMessage v bufsz block) = some t) :
    Leaves places s t := by
  simp only [deliveryStep] at hstep
  split at hstep
  case h_4 =>
    obtain rfl := Option.some.inj hstep
    exact ⟨inFlight_of_update_dequeued rfl rfl hping.symm,
      inFlight_of_update_dequeued rfl rfl hpong.symm, KeepsStarted.refl _⟩
  all_goals
    obtain rfl := Option.some.inj hstep
    apply Quiet.leaves
    exact ⟨rfl, rfl, KeepsStarted.refl _⟩

theorem background_leaves (h : Delivering s n) {places : PingPongPlaces} {e : DeliveryEvent}
    (he : e.Background n places) (hstep : deliveryStep p quantum s e = some t) :
    Leaves places s t := by
  cases e with
  | kernel e =>
    obtain ⟨hv', hkernel, rfl⟩ := Option.map_eq_some_iff.mp hstep
    apply Quiet.leaves
    exact ⟨rfl, rfl, KeepsStarted.step h.ready hkernel⟩
  | switchTo aux =>
    obtain rfl := Option.some.inj hstep
    apply Quiet.leaves
    exact ⟨rfl, rfl, KeepsStarted.contextSwitch p s.net.hv aux⟩
  | sendMessage => exact sendMessage_leaves h he.1 he.2 hstep
  | irqEnter v =>
    simp only [deliveryStep] at hstep
    split_ifs at hstep
    all_goals
      obtain rfl := Option.some.inj hstep
      apply Quiet.leaves
      exact ⟨rfl, rfl, KeepsStarted.refl _⟩
  | irqIterate v slot =>
    cases hroutine : s.routine v with
    | none =>
      simp only [deliveryStep, hroutine] at hstep
      obtain rfl := Option.some.inj hstep
      apply Quiet.leaves
      exact ⟨rfl, rfl, KeepsStarted.refl _⟩
    | some ret =>
      cases hiter : irqIteration p v slot ret s.net with
      | none => simp only [deliveryStep, hroutine, hiter, reduceCtorEq] at hstep
      | some r =>
        obtain ⟨next, net⟩ := r
        have hkeeps : KeepsStarted s.net.hv net.hv := irqIteration_keepsStarted hiter
        simp only [deliveryStep, hroutine, hiter] at hstep
        cases next
        all_goals
          obtain rfl := Option.some.inj hstep
          apply Quiet.leaves
          exact ⟨rfl, rfl, hkeeps⟩
  | receiveMessage => exact receiveMessage_leaves he.2.2.1 he.2.2.2 hstep

/-- What waits for `v` is in its guest's list or in its ring. -/
theorem Channel.inFlight {held waiting : List Packet} (h : Channel s v held waiting) :
    s.inFlight v = held ++ waiting := by
  rw [Delivery.inFlight, h.accepted, h.moved, List.append_assoc, List.drop_left]

/-- A guest that takes the message `m`, the oldest one that waits for it. -/
structure Takes (n : Nat) (v : VcpuPtr) (m : Packet) (s t : Delivery) : Prop where
  delivering : Delivering t n
  accepted : t.accepted = s.accepted
  dequeued : t.dequeued = Function.update s.dequeued v (s.dequeued v ++ [m])
  hv : t.net.hv = s.net.hv
  size : m.size ≤ MESSAGE_SZ

/-- A blocking receive spins, or takes a message. -/
theorem receive_cases (p : Platform) (quantum : UInt32) (h : Delivering s n) (hlt : v < n)
    (bufsz : UInt32) (hbufsz : MESSAGE_SZ ≤ bufsz) (hroutine : s.routine v = none) :
    receiveMessage (s.net.lists v) bufsz true = none ∨
      ∃ m rest list t, receiveMessage (s.net.lists v) bufsz true =
          some ((m.size, some (m.sourceId, m.bytes)), list) ∧
        s.inFlight v = m :: rest ∧
        deliveryStep p quantum s (.receiveMessage v bufsz true) = some t ∧ Takes n v m s t := by
  obtain ⟨t, hstep, hnext, -⟩ := h.receiveMessage p quantum hlt hbufsz true
  obtain ⟨held, waiting, hc⟩ := h.channel v hlt
  by_cases hempty : (s.net.lists v).numMessages = 0
  · exact Or.inl (by rw [receiveMessage, if_pos hempty, if_pos rfl])
  · obtain ⟨rest, hcons, -⟩ := hc.list.pop hempty
    set slot := (s.net.lists v).messages (s.net.lists v).outIndex.toNat with hslot
    have hsize : slot.size ≤ MESSAGE_SZ := hc.list.sizes _ (hcons ▸ List.mem_cons_self)
    have hwhole : ¬slot.size > bufsz := UInt32.not_lt.mpr (UInt32.le_trans hsize hbufsz)
    have hreceive : receiveMessage (s.net.lists v) bufsz true =
        some ((slot.size, some (slot.sourceId, (Packet.ofSlot slot).bytes)),
          { s.net.lists v with
            outIndex := ((s.net.lists v).outIndex + 1) % MESSAGELIST_SZ
            numMessages := (s.net.lists v).numMessages - 1 }) := by
      simp only [receiveMessage, if_neg hempty, ← hslot, if_neg hwhole]
      rfl
    refine Or.inr ⟨Packet.ofSlot slot, rest ++ waiting, _, t, hreceive, ?_, hstep, ?_⟩
    · rw [hc.inFlight, hcons, List.cons_append]
    · simp only [deliveryStep, hroutine, hreceive] at hstep
      obtain rfl := Option.some.inj hstep
      exact ⟨hnext, rfl, rfl, rfl, hsize⟩

theorem Takes.inFlight {m : Packet} {rest : List Packet} (h : Takes n v m s t)
    (hfirst : s.inFlight v = m :: rest) :
    t.inFlight v = rest ∧ ∀ w, w ≠ v → t.inFlight w = s.inFlight w := by
  constructor
  · rw [Delivery.inFlight, h.accepted, h.dequeued, Function.update_self, List.length_append,
      ← List.drop_drop]
    rw [Delivery.inFlight] at hfirst
    rw [hfirst]
    rfl
  · intro w hw
    rw [Delivery.inFlight, h.accepted, h.dequeued, Function.update_of_ne hw]
    rfl

/-- A guest that sends a message to the guest of `w`, which is accepted or refused with an error. -/
inductive Sends (p : Platform) (n : Nat) (w : VcpuPtr) (m : Packet) (s t : Delivery) : Prop
  | accepted (delivering : Delivering t n) (keeps : KeepsStarted s.net.hv t.net.hv)
      (accepted : t.accepted = Function.update s.accepted w (s.accepted w ++ [m]))
      (dequeued : t.dequeued = s.dequeued) (ret : t.ret p = m.size)
  | refused (delivering : Delivering t n) (quiet : Quiet s t) (ret : isError (t.ret p) = true)

theorem inFlight_accepted (h : Delivering s n) (hw : w < n) {m : Packet}
    (haccepted : t.accepted = Function.update s.accepted w (s.accepted w ++ [m]))
    (hdequeued : t.dequeued = s.dequeued) :
    t.inFlight w = s.inFlight w ++ [m] ∧ ∀ v, v ≠ w → t.inFlight v = s.inFlight v := by
  constructor
  · obtain ⟨held, waiting, hc⟩ := h.channel w hw
    have hall : s.accepted w = s.dequeued w ++ (held ++ waiting) := by
      rw [hc.accepted, hc.moved, List.append_assoc]
    rw [hc.inFlight, Delivery.inFlight, haccepted, hdequeued, Function.update_self, hall,
      List.append_assoc, List.drop_left]
  · intro v hv
    rw [Delivery.inFlight, haccepted, hdequeued, Function.update_of_ne hv]
    rfl

/-- Every send to a VM that exists returns; it is accepted when the VCPU was started and nothing
waits for it. -/
theorem send_cases (p : Platform) (quantum : UInt32) (h : Delivering s n)
    (halloc : AllocationsSucceed n) (caller : VcpuPtr) (hw : w < n) {size : UInt32}
    (hsize : size ≤ MESSAGE_SZ) (message : UInt32)
    (buffer : Nat → UInt8) :
    ∃ t, deliveryStep p quantum s
        (.sendMessage caller (UInt32.ofNat (w + 1)) message size buffer) = some t ∧
      Sends p n w ⟨(s.net.hv.vcpus caller).vm.id, size, (List.range size.toNat).map buffer⟩ s t ∧
      (Started s.net.hv → (t.net.hv.vcpus caller).init = 0) ∧
      ((s.net.hv.vcpus w).init = 0 → s.inFlight w = [] →
        t.accepted w = s.accepted w ++
          [⟨(s.net.hv.vcpus caller).vm.id, size, (List.range size.toNat).map buffer⟩]) := by
  set hv := hypercall p s.net.hv caller (sendArgs (UInt32.ofNat (w + 1)) message size) with hhv
  have hsame : SameKernel s.net.hv hv := hypercall_same p s.net.hv caller _
  have hkeeps : KeepsStarted s.net.hv hv := KeepsStarted.hypercall p s.net.hv caller _
  have hexec : hv.executing = some caller := hypercall_executing p s.net.hv caller _
  have hready : Ready hv n := h.ready.same hsame
  have hfound : getVcpuFromId hv (UInt32.ofNat (w + 1)) = .ok (some w) := by
    have hid := toNat_vcpuId halloc hw
    obtain ⟨w', hw', hfound, -, hvmId⟩ := (hready.integrity halloc).found (UInt32.ofNat (w + 1))
      (hid.symm ▸ Nat.le_add_left 1 w) (hid.trans_le hw)
    rw [hready.vmIds w' hw', ← UInt32.toNat_inj, toNat_vcpuId halloc hw', hid] at hvmId
    rwa [Nat.succ_injective hvmId] at hfound
  have htarget : moveFromPreviousGuestGPR p hv.cpu REG_A0 = UInt32.ofNat (w + 1) :=
    hypercall_sendTarget p s.net.hv caller _ _ _
  have hsent : moveFromPreviousGuestGPR p hv.cpu REG_A2 = size :=
    hypercall_sendSize p s.net.hv caller _ _ _
  have hsmall : ¬size > MESSAGE_SZ := UInt32.not_lt.mpr hsize
  obtain ⟨t, hstep, hnext, -⟩ := h.sendMessage p quantum caller (UInt32.ofNat (w + 1)) message size
    buffer
  obtain ⟨r, hv', hcall, ho⟩ := intervmSendMsg_outcome (p := p) hready hexec buffer
  have hsend : KeepsStarted hv hv' := SendOutcome.keepsStarted ho
  have hcaller : Started s.net.hv → (hv'.vcpus caller).init = 0 := by
    intro hstarted
    exact hsend.init caller (hkeeps.started hstarted caller hexec)
  simp only [deliveryStep, ← hhv, hcall] at hstep
  have hwait : s.inFlight w = [] → (hv.vcpus w).messages.numMessages = 0 := by
    intro hnone
    obtain ⟨held, waiting, hc⟩ := h.channel w hw
    rw [hc.inFlight, List.append_eq_nil_iff] at hnone
    rw [hsame.messages w]
    exact (queued_nil_iff hc.ring).mpr hnone.2
  by_cases hinit : (hv.vcpus w).init ≠ 0
  · have hreturn : intervmSendMsg p buffer hv =
        .ok (none, setGuestGPR p hv REG_V0 MESSAGE_VCPU_NOT_INIT) := by
      simp only [intervmSendMsg, htarget, hsent, if_neg hsmall, hfound, bind, Except.bind,
        if_pos hinit]
      rfl
    obtain ⟨rfl, rfl⟩ := Prod.mk.inj (Except.ok.inj (hcall.symm.trans hreturn))
    obtain rfl := Option.some.inj hstep
    refine ⟨_, by simp only [deliveryStep, ← hhv, hcall],
      .refused hnext ⟨rfl, rfl, hkeeps.trans hsend⟩ ?_, hcaller,
      fun hzero => absurd (hkeeps.init w hzero) hinit⟩
    simp only [Delivery.ret, Delivery.setHv, setGuestGPR, moveFrom_moveTo]
    decide
  by_cases hfull : (hv.vcpus w).messages.numMessages = MESSAGELIST_SZ
  · have hreturn : intervmSendMsg p buffer hv = .ok (none, setGuestGPR p (hv.setVcpu w
        { hv.vcpus w with guestclt2 :=
          (hv.vcpus w).guestclt2 ||| (GUEST_INTERVM_INT <<< GUESTCLT2_GRIPL_SHIFT) })
        REG_V0 MESSAGE_FULL) := by
      simp only [intervmSendMsg, htarget, hsent, if_neg hsmall, hfound, bind, Except.bind,
        if_neg hinit, if_pos hfull]
      rfl
    obtain ⟨rfl, rfl⟩ := Prod.mk.inj (Except.ok.inj (hcall.symm.trans hreturn))
    obtain rfl := Option.some.inj hstep
    refine ⟨_, by simp only [deliveryStep, ← hhv, hcall],
      .refused hnext ⟨rfl, rfl, hkeeps.trans hsend⟩ ?_, hcaller, fun _ hnone => ?_⟩
    · simp only [Delivery.ret, Delivery.setHv, setGuestGPR, moveFrom_moveTo]
      decide
    · rw [hwait hnone] at hfull
      exact absurd hfull (by decide)
  · obtain ⟨after, hreturn, hret⟩ : ∃ after, intervmSendMsg p buffer hv = .ok (some w, after) ∧
        moveFromPreviousGuestGPR p after.cpu REG_V0 = size := by
      refine ⟨_, by
        simp only [intervmSendMsg, htarget, hsent, if_neg hsmall, hfound, bind, Except.bind,
          if_neg hinit, if_neg hfull, hexec]
        rfl, ?_⟩
      simp only [fastInterruptDelivery_cpu, setGuestGPR, moveFrom_moveTo]
    obtain ⟨rfl, rfl⟩ := Prod.mk.inj (Except.ok.inj (hcall.symm.trans hreturn))
    obtain rfl := Option.some.inj hstep
    refine ⟨_, by simp only [deliveryStep, ← hhv, hcall],
      .accepted hnext (hkeeps.trans hsend) rfl rfl hret, hcaller, fun _ _ => ?_⟩
    exact Function.update_self _ _ _

/-! ### The protocol -/

/-- A message that starts with the time, for whatever buffer takes it. -/
def Carries (bytes : List UInt8) (time : UInt32) : Prop :=
  ∀ buffer, loadTime (received bytes buffer) = time

theorem carries_storeTime (time : UInt32) (buffer : Nat → UInt8) {size : Nat} (hsize : 4 ≤ size) :
    Carries ((List.range size).map (storeTime time buffer)) time := by
  intro buffer'
  exact loadTime_storeTime fun i hi => received_sent (hi.trans_le hsize)

/-- A round of `ping` for what `pong` has served: the answer is the delay that `pong` has measured
for the message of that round. -/
def Answers (r : Round) (x : UInt32 × UInt32) : Prop :=
  r.timestart = x.1 ∧ r.oneWay = calcDiffTime x.2 x.1

/-- Where the message of a round is: nowhere yet, on the way to `pong`, with `pong`, or on the way
back. -/
inductive Phase (places : PingPongPlaces) (s : PingPong) : Prop
  | sending (receives : s.ping.receives = false) (answers : s.pong.answers = none)
      (toPing : s.net.inFlight places.ping = []) (toPong : s.net.inFlight pongVcpu = [])
      (rounds : List.Forall₂ Answers s.ping.rounds s.pong.served)
  | asked (receives : s.ping.receives = true) (answers : s.pong.answers = none)
      (toPing : s.net.inFlight places.ping = []) (m : Packet)
      (toPong : s.net.inFlight pongVcpu = [m])
      (source : m.sourceId = UInt32.ofNat (places.ping + 1)) (size : m.size = s.ping.messageSize)
      (time : Carries m.bytes s.ping.timestart)
      (rounds : List.Forall₂ Answers s.ping.rounds s.pong.served)
  | answering (receives : s.ping.receives = true)
      (answers : s.pong.answers = some (UInt32.ofNat (places.ping + 1), s.ping.messageSize))
      (toPing : s.net.inFlight places.ping = []) (toPong : s.net.inFlight pongVcpu = [])
      (count : UInt32) (served : List (UInt32 × UInt32))
      (last : s.pong.served = served ++ [(s.ping.timestart, count)])
      (buffer : Nat → UInt8)
      (delay : s.pong.messageBuffer = storeTime (calcDiffTime count s.ping.timestart) buffer)
      (rounds : List.Forall₂ Answers s.ping.rounds served)
  | answered (receives : s.ping.receives = true) (answers : s.pong.answers = none)
      (toPong : s.net.inFlight pongVcpu = []) (m : Packet)
      (toPing : s.net.inFlight places.ping = [m]) (size : m.size = s.ping.messageSize)
      (count : UInt32) (served : List (UInt32 × UInt32))
      (last : s.pong.served = served ++ [(s.ping.timestart, count)])
      (delay : Carries m.bytes (calcDiffTime count s.ping.timestart))
      (rounds : List.Forall₂ Answers s.ping.rounds served)

/-- The invariant of the two guests on the hypervisor with `n` VCPUs. -/
structure Match (n : Nat) (places : PingPongPlaces) (s : PingPong) : Prop where
  net : Delivering s.net n
  started : Started s.net.net.hv
  size : 64 ≤ s.ping.messageSize.toNat ∧ s.ping.messageSize ≤ MESSAGE_SZ
  init : s.ping.receives = true → (s.net.net.hv.vcpus places.ping).init = 0
  phase : Phase places s

/-- `ping` and `pong` are different VCPUs of the hypervisor. -/
structure PingPongPlaces.Apart (places : PingPongPlaces) (n : Nat) : Prop where
  ping : places.ping < n
  pong : pongVcpu < n
  ne : places.ping ≠ pongVcpu

variable {places : PingPongPlaces} {a b : PingPong} {net : Delivery}

theorem Phase.leaves (h : Phase places a) (hleaves : Leaves places a.net net) :
    Phase places { a with net := net } := by
  have hping := hleaves.ping
  have hpong := hleaves.pong
  cases h with
  | sending receives answers toPing toPong rounds =>
    exact .sending receives answers (hping.trans toPing) (hpong.trans toPong) rounds
  | asked receives answers toPing m toPong source size time rounds =>
    exact .asked receives answers (hping.trans toPing) m (hpong.trans toPong) source size time
      rounds
  | answering receives answers toPing toPong count served last buffer delay rounds =>
    exact .answering receives answers (hping.trans toPing) (hpong.trans toPong) count served last
      buffer delay rounds
  | answered receives answers toPong m toPing size count served last delay rounds =>
    exact .answered receives answers (hpong.trans toPong) m (hping.trans toPing) size count served
      last delay rounds

theorem Match.background (h : Match n places a) {e : DeliveryEvent} (he : e.Background n places) :
    ∃ b, pingPongStep p quantum places a (.background e) = some b ∧ Match n places b := by
  have hvalid : e.Valid n := by
    cases e with
    | receiveMessage => exact ⟨he.1, he.2.1⟩
    | irqIterate => exact he
    | sendMessage => trivial
    | kernel => trivial
    | switchTo => trivial
    | irqEnter => trivial
  obtain ⟨net, hstep, hnext, -⟩ := h.net.step p quantum e hvalid
  have hleaves := background_leaves h.net he hstep
  exact ⟨{ a with net := net }, by rw [pingPongStep, hstep]; rfl, hnext,
    hleaves.keeps.started h.started, h.size,
    fun hreceives => hleaves.keeps.init _ (h.init hreceives), h.phase.leaves hleaves⟩

theorem Ping.nextRound_size (a : Ping) (h : 64 ≤ a.messageSize.toNat ∧ a.messageSize ≤ MESSAGE_SZ) :
    64 ≤ a.nextRound.messageSize.toNat ∧ a.nextRound.messageSize ≤ MESSAGE_SZ := by
  have hle := UInt32.le_iff_toNat_le.mp h.2
  rw [show MESSAGE_SZ.toNat = 256 from rfl] at hle
  have hsum : (a.messageSize + 64).toNat = a.messageSize.toNat + 64 := by
    rw [UInt32.toNat_add, show (64 : UInt32).toNat = 64 from rfl, Nat.mod_eq_of_lt (by omega)]
  unfold Ping.nextRound
  split_ifs with hround hsize
  · exact h
  · exact ⟨(by decide : 64 ≤ (64 : UInt32).toNat), (by decide : (64 : UInt32) ≤ MESSAGE_SZ)⟩
  · refine ⟨?_, UInt32.not_lt.mp hsize⟩
    show 64 ≤ (a.messageSize + 64).toNat
    omega

theorem Ping.nextRound_receives (a : Ping) : a.nextRound.receives = false := by
  unfold Ping.nextRound
  split_ifs <;> rfl

theorem Ping.nextRound_rounds (a : Ping) : a.nextRound.rounds = a.rounds := by
  unfold Ping.nextRound
  split_ifs <;> rfl

/-- `ping` sends, when no message is under way. -/
theorem Match.pingSends (h : Match n places a) (hapart : places.Apart n)
    (halloc : AllocationsSucceed n) (hroutine : a.net.routine places.ping = none)
    (hreceives : a.ping.receives = false) (count : UInt32) :
    ∃ b, pingStep p quantum places count a = some b ∧ Match n places b := by
  have hle := UInt32.le_iff_toNat_le.mp h.size.2
  rw [show MESSAGE_SZ.toNat = 256 from rfl] at hle
  have hmin := h.size.1
  obtain ⟨answers, toPing, toPong, rounds⟩ : a.pong.answers = none ∧
      a.net.inFlight places.ping = [] ∧ a.net.inFlight pongVcpu = [] ∧
      List.Forall₂ Answers a.ping.rounds a.pong.served := by
    cases h.phase with
    | sending _ answers toPing toPong rounds => exact ⟨answers, toPing, toPong, rounds⟩
    | asked receives => exact absurd (hreceives.symm.trans receives) Bool.false_ne_true
    | answering receives => exact absurd (hreceives.symm.trans receives) Bool.false_ne_true
    | answered receives => exact absurd (hreceives.symm.trans receives) Bool.false_ne_true
  set buffer := storeTime count a.ping.messageBuffer with hbuffer
  set ping : Ping := { a.ping with timestart := count, messageBuffer := buffer } with hping
  obtain ⟨net, hstep, hsends, hinit, -⟩ := send_cases p quantum h.net halloc places.ping
    hapart.pong h.size.2 places.pingBuffer buffer
  have hcall : pingStep p quantum places count a = some { a with
      net := net
      ping := if isError (net.ret p) then ping.nextRound else { ping with receives := true } } := by
    simp only [pingStep, hroutine, ne_eq, not_true_eq_false, if_false, hreceives,
      Bool.false_eq_true]
    exact congrArg (Option.map _) hstep
  refine ⟨_, hcall, ?_⟩
  cases hsends with
  | accepted delivering keeps accepted dequeued ret =>
    have hret : isError (net.ret p) = false := by
      rw [ret]
      exact not_isError (show 0 < a.ping.messageSize.toNat by omega) h.size.2
    rw [hret, if_neg Bool.false_ne_true]
    obtain ⟨hpong, hothers⟩ := inFlight_accepted h.net hapart.pong accepted dequeued
    rw [toPong, List.nil_append, h.net.ready.vmIds _ hapart.ping] at hpong
    exact ⟨delivering, keeps.started h.started, h.size, fun _ => hinit h.started,
      .asked rfl answers ((hothers _ hapart.ne).trans toPing) _ hpong rfl rfl
        (carries_storeTime count _ (by omega)) rounds⟩
  | refused delivering quiet ret =>
    rw [ret, if_pos rfl]
    refine ⟨delivering, quiet.keeps.started h.started, Ping.nextRound_size ping h.size,
      fun hnow => ?_, .sending ping.nextRound_receives answers ((quiet.inFlight _).trans toPing)
        ((quiet.inFlight _).trans toPong) ?_⟩
    · exact absurd (ping.nextRound_receives.symm.trans hnow) Bool.false_ne_true
    · exact ping.nextRound_rounds ▸ rounds

/-- `ping` receives: it spins, or takes the answer to its last message. -/
theorem Match.pingReceives (h : Match n places a) (hapart : places.Apart n)
    (hroutine : a.net.routine places.ping = none) (hreceives : a.ping.receives = true)
    (count : UInt32) : ∃ b, pingStep p quantum places count a = some b ∧ Match n places b := by
  have hspins : receiveMessage (a.net.net.lists places.ping) PING_BUFFER_SZ true = none →
      pingStep p quantum places count a = some a := by
    intro hnone
    simp only [pingStep, hroutine, ne_eq, not_true_eq_false, if_false, hreceives, if_true, hnone]
  rcases receive_cases p quantum h.net hapart.ping PING_BUFFER_SZ (by decide)
    hroutine with hnone | ⟨m, rest, list, net, hreceive, hflight, hstep, htakes⟩
  · exact ⟨a, hspins hnone, h⟩
  · obtain ⟨hleft, hothers⟩ := htakes.inFlight hflight
    cases h.phase with
    | sending receives => exact absurd (hreceives.symm.trans receives) Bool.noConfusion
    | asked _ _ toPing => exact absurd (hflight.symm.trans toPing) (List.cons_ne_nil m rest)
    | answering _ _ toPing => exact absurd (hflight.symm.trans toPing) (List.cons_ne_nil m rest)
    | answered _ answers toPong m' toPing size time served last delay rounds =>
      obtain ⟨rfl, rfl⟩ := List.cons.inj (hflight.symm.trans toPing)
      have hpos : 0 < m.size.toNat := by
        have := h.size.1
        rw [size]
        omega
      have hret : ¬isError m.size ∧ m.size ≠ 0 := by
        refine ⟨by rw [not_isError hpos htakes.size]; exact Bool.false_ne_true, fun hzero => ?_⟩
        rw [hzero] at hpos
        exact absurd hpos (by decide)
      set buffer := received m.bytes a.ping.messageBuffer with hbuffer
      set ping : Ping := { a.ping with
        messageBuffer := buffer
        rounds := a.ping.rounds ++ [⟨a.ping.timestart, count, loadTime buffer⟩] } with hping
      have hcall : pingStep p quantum places count a =
          some { a with net := net, ping := ping.nextRound } := by
        rw [pingStep]
        dsimp only
        rw [if_neg (not_not_intro hroutine), if_pos hreceives]
        simp only [hreceive, hstep, Option.map_some]
        rw [if_pos hret]
      have hround : Answers ⟨a.ping.timestart, count, loadTime buffer⟩ (a.ping.timestart, time) :=
        ⟨rfl, delay _⟩
      refine ⟨_, hcall, htakes.delivering, ?_, Ping.nextRound_size ping h.size, fun hnow => ?_,
        .sending ping.nextRound_receives answers hleft ((hothers _ hapart.ne.symm).trans toPong) ?_⟩
      · show Started net.net.hv
        rw [htakes.hv]
        exact h.started
      · exact absurd (ping.nextRound_receives.symm.trans hnow) Bool.false_ne_true
      · show List.Forall₂ Answers ping.nextRound.rounds a.pong.served
        rw [ping.nextRound_rounds, last]
        exact List.rel_append rounds (List.Forall₂.cons hround List.Forall₂.nil)

/-- `pong` receives: it spins, or takes a message of `ping`. -/
theorem Match.pongReceives (h : Match n places a) (hapart : places.Apart n)
    (hroutine : a.net.routine pongVcpu = none) (hanswers : a.pong.answers = none)
    (count : UInt32) : ∃ b, pongStep p quantum places count a = some b ∧ Match n places b := by
  have hspins : receiveMessage (a.net.net.lists pongVcpu) PONG_BUFFER_SZ true = none →
      pongStep p quantum places count a = some a := by
    intro hnone
    simp only [pongStep, hroutine, ne_eq, not_true_eq_false, if_false, hanswers, hnone]
  rcases receive_cases p quantum h.net hapart.pong PONG_BUFFER_SZ (by decide)
    hroutine with hnone | ⟨m, rest, list, net, hreceive, hflight, hstep, htakes⟩
  · exact ⟨a, hspins hnone, h⟩
  · obtain ⟨hleft, hothers⟩ := htakes.inFlight hflight
    cases h.phase with
    | sending _ _ _ toPong => exact absurd (hflight.symm.trans toPong) (List.cons_ne_nil m rest)
    | answering _ answers =>
      rw [hanswers] at answers
      cases answers
    | answered _ _ toPong => exact absurd (hflight.symm.trans toPong) (List.cons_ne_nil m rest)
    | asked receives _ toPing m' toPong source size time rounds =>
      obtain ⟨rfl, rfl⟩ := List.cons.inj (hflight.symm.trans toPong)
      have hpos : 0 < m.size.toNat := by
        have := h.size.1
        rw [size]
        omega
      have hret : ¬isError m.size := by
        rw [not_isError hpos htakes.size]
        exact Bool.false_ne_true
      set buffer := received m.bytes a.pong.messageBuffer with hbuffer
      have hcall : pongStep p quantum places count a = some { a with
          net := net
          pong := {
            messageBuffer := storeTime (calcDiffTime count (loadTime buffer)) buffer
            answers := some (m.sourceId, m.size)
            served := a.pong.served ++ [(loadTime buffer, count)] } } := by
        simp only [pongStep, hroutine, ne_eq, not_true_eq_false, if_false, hanswers, hreceive,
          hstep, Option.map_some]
        rw [if_neg hret]
      refine ⟨_, hcall, htakes.delivering, ?_, h.size, fun hnow => ?_,
        .answering receives ?_ ((hothers _ hapart.ne).trans toPing) hleft count a.pong.served ?_
          buffer ?_ rounds⟩
      · show Started net.net.hv
        rw [htakes.hv]
        exact h.started
      · show (net.net.hv.vcpus places.ping).init = 0
        rw [htakes.hv]
        exact h.init hnow
      · show some (m.sourceId, m.size) = _
        rw [source, size]
      · show a.pong.served ++ [(loadTime buffer, count)] = _
        rw [time]
      · show storeTime (calcDiffTime count (loadTime buffer)) buffer = _
        rw [time]

/-- `pong` answers, and its answer is accepted. -/
theorem Match.pongSends (h : Match n places a) (hapart : places.Apart n)
    (halloc : AllocationsSucceed n) (hroutine : a.net.routine pongVcpu = none)
    {x : UInt32 × UInt32} (hanswers : a.pong.answers = some x) (count : UInt32) :
    ∃ b, pongStep p quantum places count a = some b ∧ Match n places b := by
  cases h.phase with
  | sending _ answers =>
    rw [hanswers] at answers
    cases answers
  | asked _ answers =>
    rw [hanswers] at answers
    cases answers
  | answered _ answers =>
    rw [hanswers] at answers
    cases answers
  | answering receives answers toPing toPong time served last buffer delay rounds =>
    obtain ⟨net, hstep, hsends, -, haccepts⟩ := send_cases p quantum h.net halloc pongVcpu
      hapart.ping h.size.2 places.pongBuffer a.pong.messageBuffer
    have hcall : pongStep p quantum places count a =
        some { a with net := net, pong := { a.pong with answers := none } } := by
      simp only [pongStep, hroutine, ne_eq, not_true_eq_false, if_false, answers]
      exact congrArg (Option.map _) hstep
    have hgrows := haccepts (h.init receives) toPing
    refine ⟨_, hcall, ?_⟩
    cases hsends with
    | refused delivering quiet ret =>
      rw [quiet.accepted] at hgrows
      exact absurd hgrows.symm (by simp)
    | accepted delivering keeps accepted dequeued ret =>
      obtain ⟨hping, hothers⟩ := inFlight_accepted h.net hapart.ping accepted dequeued
      rw [toPing, List.nil_append, delay] at hping
      have hmin := h.size.1
      exact ⟨delivering, keeps.started h.started, h.size, fun hnow => keeps.init _ (h.init hnow),
        .answered receives rfl
          ((hothers _ hapart.ne.symm).trans toPong) _ hping rfl time served last
          (carries_storeTime _ _ (by omega)) rounds⟩

/-- The step lemma: every step is defined and keeps the two guests matched. -/
theorem Match.step (p : Platform) (quantum : UInt32) (h : Match n places a)
    (hapart : places.Apart n) (halloc : AllocationsSucceed n) {e : PingPongEvent}
    (he : e.Background n places) :
    ∃ b, pingPongStep p quantum places a e = some b ∧ Match n places b := by
  cases e with
  | background e => exact h.background he
  | ping count =>
    by_cases hroutine : a.net.routine places.ping = none
    · cases hreceives : a.ping.receives with
      | false => exact h.pingSends hapart halloc hroutine hreceives count
      | true => exact h.pingReceives hapart hroutine hreceives count
    · exact ⟨a, by rw [pingPongStep, pingStep]; exact if_pos hroutine, h⟩
  | pong count =>
    by_cases hroutine : a.net.routine pongVcpu = none
    · cases hanswers : a.pong.answers with
      | none => exact h.pongReceives hapart hroutine hanswers count
      | some x => exact h.pongSends hapart halloc hroutine hanswers count
    · exact ⟨a, by rw [pingPongStep, pongStep]; exact if_pos hroutine, h⟩

/-- Between two steps one message is under way when `ping` waits, and none otherwise. -/
theorem Match.underWay (h : Match n places a) :
    a.underWay places = if a.ping.receives then 1 else 0 := by
  rw [PingPong.underWay]
  cases h.phase with
  | sending receives answers toPing toPong => simp [receives, answers, toPing, toPong]
  | asked receives answers toPing m toPong => simp [receives, answers, toPing, toPong]
  | answering receives answers toPing toPong => simp [receives, answers, toPing, toPong]
  | answered receives answers toPong m toPing => simp [receives, answers, toPing, toPong]

/-- The rounds of `ping` are answered by what `pong` has served, one by one. -/
theorem Match.rounds (h : Match n places a) :
    List.Forall₂ Answers a.ping.rounds (a.pong.served.take a.ping.rounds.length) ∧
      a.pong.served.length ≤ a.ping.rounds.length + 1 := by
  have hall : List.Forall₂ Answers a.ping.rounds a.pong.served →
      List.Forall₂ Answers a.ping.rounds (a.pong.served.take a.ping.rounds.length) ∧
        a.pong.served.length ≤ a.ping.rounds.length + 1 := by
    intro hrounds
    rw [hrounds.length_eq, List.take_length]
    exact ⟨hrounds, Nat.le_succ _⟩
  have hbut : ∀ {served : List (UInt32 × UInt32)} {x : UInt32 × UInt32},
      a.pong.served = served ++ [x] → List.Forall₂ Answers a.ping.rounds served →
      List.Forall₂ Answers a.ping.rounds (a.pong.served.take a.ping.rounds.length) ∧
        a.pong.served.length ≤ a.ping.rounds.length + 1 := by
    intro served x hlast hrounds
    rw [hlast, hrounds.length_eq, List.take_left, List.length_append, List.length_singleton]
    exact ⟨hrounds, le_rfl⟩
  cases h.phase with
  | sending _ _ _ _ rounds => exact hall rounds
  | asked _ _ _ _ _ _ _ _ rounds => exact hall rounds
  | answering _ _ _ _ _ _ last _ _ rounds => exact hbut last rounds
  | answered _ _ _ _ _ _ _ _ last _ rounds => exact hbut last rounds

/-- The two guests after `initializeMachines`, when both have initialized their network. -/
def pingPongStart (p : Platform) (power : Power) (vmconf : List VmConf) : PingPong where
  net := deliveryStart p power vmconf
  ping := ⟨fun _ => 0, 0, 64, 0, false, []⟩
  pong := ⟨fun _ => 0, none, []⟩

theorem match_start (p : Platform) (power : Power) (vmconf : List VmConf)
    (places : PingPongPlaces) :
    Match vmconf.length places (pingPongStart p power vmconf) := by
  refine ⟨deliveryStart_delivering p power vmconf, fun v hexec => ?_,
    ⟨(by decide : 64 ≤ (64 : UInt32).toNat), (by decide : (64 : UInt32) ≤ MESSAGE_SZ)⟩,
      fun hreceives => Bool.noConfusion hreceives, .sending rfl rfl rfl rfl List.Forall₂.nil⟩
  have hnone : (initializeMachines p power vmconf).executing = none :=
    (initializeMachines_booted p power vmconf).executing
  exact absurd (hnone.symm.trans hexec) (by simp)

/-- In every run of the two guests, whatever the scheduler, the drivers, the interrupt routines and
other VMs with messages of their own do in between: no message of the two is lost or doubled, as one
is under way exactly while `ping` waits; and each answer that `ping` takes into account is the delay
that `pong` has measured for the message of that round. -/
theorem pingPong_rounds (p : Platform) (quantum : UInt32) (power : Power) (vmconf : List VmConf)
    (halloc : AllocationsSucceed vmconf.length) (places : PingPongPlaces)
    (hapart : places.Apart vmconf.length) (es : List PingPongEvent)
    (hes : ∀ e ∈ es, e.Background vmconf.length places) :
    ∃ s, run (pingPongStep p quantum places) (pingPongStart p power vmconf) es = some s ∧
      (s.underWay places = if s.ping.receives then 1 else 0) ∧
      List.Forall₂ Answers s.ping.rounds (s.pong.served.take s.ping.rounds.length) ∧
      s.pong.served.length ≤ s.ping.rounds.length + 1 := by
  obtain ⟨s, hrun, h⟩ := run_defined
    (fun s e he hs => Match.step p quantum hs hapart halloc (hes e he))
    (match_start p power vmconf places)
  exact ⟨s, hrun, h.underWay, h.rounds⟩

/-- `ping` is the first VM. -/
def firstPlaces : PingPongPlaces := ⟨0, 0x80000100, 0x80000200⟩

/-- A round: the message and the answer, each through the ring and the list of its guest. -/
def oneRound : List PingPongEvent :=
  [.background (.switchTo (some 1)), .ping 100, .background (.irqEnter 1),
    .background (.irqIterate 1 fun _ => 0x80000300),
    .background (.irqIterate 1 fun _ => 0x80000300), .pong 140, .pong 145,
    .background (.irqEnter 0), .background (.irqIterate 0 fun _ => 0x80000300),
    .background (.irqIterate 0 fun _ => 0x80000300), .ping 190]

theorem pingPong_rounds_one :
    ∃ s, run (pingPongStep .pic32mz 5 firstPlaces) (pingPongStart .pic32mz .cleared pingPong)
        oneRound = some s ∧
      (s.underWay firstPlaces = if s.ping.receives then 1 else 0) ∧
      List.Forall₂ Answers s.ping.rounds (s.pong.served.take s.ping.rounds.length) ∧
      s.pong.served.length ≤ s.ping.rounds.length + 1 :=
  pingPong_rounds .pic32mz 5 .cleared pingPong (by decide) firstPlaces
    ⟨by decide, by decide, by decide⟩ oneRound (by
      simp only [oneRound, List.forall_mem_cons]
      decide)

end PrplHypervisor.Guest
