import ExKernel.Ip.Core
import ExKernel.Lib.Retry

/-!
# Delivery to the protocols

A packet for this host is put together if it is a fragment, shown to the hooks once more, and given
to the raw sockets and to the handler of its protocol. A handler that has only taken off a layer
hands the packet back with the number of the protocol inside, and the delivery starts over; whether
that comes to an end is up to the handlers.

A packet with the router alert option goes to a chain of sockets instead. All sockets that want it
get a clone but the last one, which gets the packet itself; so the loop holds each socket back until
it has found the next one.

## Main definitions

* `Ip.LocalSkb`, `Ip.Payload`: a packet before and after its header was taken off.
* `Ip.Upper`: what is above the IP layer.
* `Ip.ipProtocolDeliverRcu`, `Ip.ipLocalDeliver`, `Ip.ipCallRaChain`.

## Main results

* `Ip.protocol_deliver_ends_iff`: when the delivery comes to an end.
* `Ip.local_deliver_consumes`: a packet is consumed once.
* `Ip.ra_chain_delivers`: who gets a packet with a router alert.

## References

* `linux/net/ipv4/ip_input.c`, lines 145–255.
-/

namespace ExKernel.Ip

/-- A packet of which the header is in the linear area as far as the transport header. -/
structure LocalSkb extends IpSkb where
  transport_le : transportHeader ≤ linear.length

theorem Accepted.transport_le {env : Env} {skb : Skb} {skb' : IpSkb} (h : Accepted env skb skb') :
    skb'.transportHeader ≤ skb'.linear.length := by
  rw [h.rest_eq]
  exact h.ihl_le

/-- A packet of which the header was taken off; it can still be read. -/
structure Payload where
  id : ℕ
  iph : Iphdr
  linear : List UInt8
  paged : List UInt8

/-- `skb->len`. -/
def Payload.len (skb : Payload) : ℕ := skb.linear.length + skb.paged.length

/-- `__skb_pull(skb, skb_network_header_len(skb))`. -/
def LocalSkb.pull (skb : LocalSkb) : Payload where
  id := skb.id
  iph := skb.ipHdr
  linear := skb.linear.drop skb.transportHeader
  paged := skb.paged

/-- An entry of `inet_protos`. The handler returns a number and, if that is negative, hands back the
packet with what it has left of it. -/
structure NetProtocol where
  noPolicy : Bool
  handler : Payload → ℤ × Payload
  id_handler : ∀ skb, (handler skb).2.id = skb.id

/-- A socket of the chain for router alerts: its protocol, and the interface that it is bound to, or
zero. -/
structure RaSock where
  id : ℕ
  inetNum : UInt8
  boundDevIf : ℕ
  deriving DecidableEq

/-- What is above the IP layer: the raw sockets, the table of protocols, the policy, the queues in
which fragments are put together, and the hooks. -/
structure Upper where
  rawLocalDeliver : Payload → ℕ → Bool
  inetProtos : ℕ → Option NetProtocol
  xfrm4PolicyCheck : Payload → Bool
  ipDefrag : LocalSkb → Option LocalSkb
  nfLocalIn : LocalSkb → Option LocalSkb
  cloneFails : RaSock → Bool
  id_ipDefrag : ∀ skb skb', ipDefrag skb = some skb' → skb'.id = skb.id
  id_nfLocalIn : ∀ skb skb', nfLocalIn skb = some skb' → skb'.id = skb.id

/-- What is done with a packet for this host. -/
inductive Delivery
  | raw (protocol : ℕ) (took : Bool)
  | nfResetCt
  | handler (protocol id : ℕ)
  | resubmit (protocol : ℕ)
  | inDelivers
  | inUnknownProtos
  | icmpProtUnreach
  | kfreeSkb (id : ℕ)
  | consumeSkb (id : ℕ)
  | ipDefrag (id : ℕ)
  | nfLocalIn (id : ℕ)
  deriving DecidableEq

/-- The packet that is consumed. -/
def Delivery.ended : Delivery → Option ℕ
  | .handler _ id => some id
  | .kfreeSkb id => some id
  | .consumeSkb id => some id
  | .ipDefrag id => some id
  | .nfLocalIn id => some id
  | _ => none

/-- The packet has reached someone who wanted it. -/
def Delivery.isDelivered : Delivery → Bool
  | .handler _ _ => true
  | .consumeSkb _ => true
  | _ => false

/-! ### The protocols -/

/-- `ip_protocol_deliver_rcu`, from the label `resubmit` on.

Source: `linux/net/ipv4/ip_input.c`, lines 187–224. -/
def deliverRound (k : Upper) (s : Payload × ℕ) : List Delivery × Option (Payload × ℕ) :=
  let skb := s.1
  let protocol := s.2
  let raw := k.rawLocalDeliver skb protocol
  match k.inetProtos protocol with
  | some ipprot =>
    if ipprot.noPolicy = false ∧ k.xfrm4PolicyCheck skb = false then
      ([.raw protocol raw, .kfreeSkb skb.id], none)
    else
      let log := .raw protocol raw :: if ipprot.noPolicy then [] else [.nfResetCt]
      let ret := ipprot.handler skb
      if ret.1 < 0 then (log ++ [.resubmit protocol], some (ret.2, (-ret.1).toNat))
      else (log ++ [.handler protocol skb.id, .inDelivers], none)
  | none =>
    if raw = false then
      (.raw protocol raw :: (if k.xfrm4PolicyCheck skb then [.inUnknownProtos, .icmpProtUnreach]
        else []) ++ [.kfreeSkb skb.id], none)
    else ([.raw protocol raw, .inDelivers, .consumeSkb skb.id], none)

/-- `ip_protocol_deliver_rcu`, for at most `n` rounds. -/
def ipProtocolDeliverRcu (k : Upper) (n : ℕ) (skb : Payload) (protocol : ℕ) :
    Option (List Delivery) :=
  Retry.run (deliverRound k) n (skb, protocol)

/-- `ip_local_deliver_finish`.

Source: `linux/net/ipv4/ip_input.c`, lines 226–235. -/
def ipLocalDeliverFinish (k : Upper) (n : ℕ) (skb : LocalSkb) : Option (List Delivery) :=
  ipProtocolDeliverRcu k n skb.pull skb.ipHdr.protocol.toNat

/-- `ip_local_deliver`.

Source: `linux/net/ipv4/ip_input.c`, lines 240–255. -/
def ipLocalDeliver (k : Upper) (n : ℕ) (skb : LocalSkb) : Option (List Delivery) :=
  match (if skb.ipHdr.isFragment then k.ipDefrag skb else some skb) with
  | none => some [.ipDefrag skb.id]
  | some skb =>
    match k.nfLocalIn skb with
    | none => some [.nfLocalIn skb.id]
    | some skb => ipLocalDeliverFinish k n skb

/-- What was done with the packet `id`. It was consumed once, and was counted as delivered if and
only if a handler has kept it or it was consumed for the raw socket of the last round (`consumed`).
That its protocol cannot be reached is said only of a packet that no raw socket has taken in the last
round, and which is freed then. That one has taken it in a round before is forgotten when the
delivery starts over. -/
structure Delivered (id : ℕ) (log : List Delivery) : Prop where
  ended_eq : log.filterMap Delivery.ended = [id]
  counted : log.count .inDelivers = (log.filter Delivery.isDelivered).length
  consumed : .consumeSkb id ∈ log → ∃ pre protocol,
    log = pre ++ [.raw protocol true, .inDelivers, .consumeSkb id]
  unreach : .icmpProtUnreach ∈ log → ∃ pre protocol,
    log = pre ++ [.raw protocol false, .inUnknownProtos, .icmpProtUnreach, .kfreeSkb id]

/-- Every handler that hands a packet back has taken something off it. -/
def Shortens (k : Upper) : Prop :=
  ∀ protocol ipprot skb, k.inetProtos protocol = some ipprot → (ipprot.handler skb).1 < 0 →
    (ipprot.handler skb).2.len < skb.len

/-- The handler `ipprot` of the protocol gets the packet, and hands it back. -/
structure HandsBack (k : Upper) (s : Payload × ℕ) (ipprot : NetProtocol) : Prop where
  proto : k.inetProtos s.2 = some ipprot
  policy : ipprot.noPolicy = true ∨ k.xfrm4PolicyCheck s.1 = true
  ret_neg : (ipprot.handler s.1).1 < 0

/-- What a handler hands back, with the protocol inside. -/
def NetProtocol.rest (ipprot : NetProtocol) (skb : Payload) : Payload × ℕ :=
  ((ipprot.handler skb).2, (-(ipprot.handler skb).1).toNat)

section Rounds

variable (k : Upper)

/-- **What a round does**: the packet is handed back, or consumed. -/
theorem deliverRound_cases (s : Payload × ℕ) :
    (∃ ipprot reset, HandsBack k s ipprot ∧ (reset = [] ∨ reset = [.nfResetCt]) ∧
        deliverRound k s = (.raw s.2 (k.rawLocalDeliver s.1 s.2) :: reset ++ [.resubmit s.2],
          some (ipprot.rest s.1))) ∨
      (¬ ∃ ipprot, HandsBack k s ipprot) ∧ (deliverRound k s).2 = none ∧
        Delivered s.1.id (deliverRound k s).1 := by
  unfold deliverRound
  dsimp only
  cases hproto : k.inetProtos s.2 with
  | none =>
    refine .inr ⟨?_, ?_⟩
    · rintro ⟨ipprot, hback⟩
      cases hproto.symm.trans hback.proto
    · dsimp only
      split_ifs with hraw hpolicy
      · exact ⟨rfl, rfl, rfl, by simp, fun _ => ⟨[], s.2, by rw [hraw]; rfl⟩⟩
      · exact ⟨rfl, rfl, rfl, by simp, by simp⟩
      · have htook : k.rawLocalDeliver s.1 s.2 = true := by simpa using hraw
        exact ⟨rfl, rfl, rfl, fun _ => ⟨[], s.2, by rw [htook]; rfl⟩, by simp⟩
  | some ipprot =>
    have hback : (HandsBack k s ipprot → False) → ¬ ∃ ipprot, HandsBack k s ipprot := by
      rintro h ⟨ipprot', hback⟩
      exact h (Option.some.inj (hproto.symm.trans hback.proto) ▸ hback)
    dsimp only
    split_ifs with hpolicy hret hno hno
    · refine .inr ⟨hback fun h => ?_, rfl, rfl, rfl, by simp, by simp⟩
      rcases h.policy with hp | hp
      · rw [hpolicy.1] at hp
        cases hp
      · rw [hpolicy.2] at hp
        cases hp
    · exact .inl ⟨ipprot, [], ⟨hproto, .inl hno, hret⟩, .inl rfl, rfl⟩
    · have hcheck : k.xfrm4PolicyCheck s.1 = true := by
        simpa [hno] using hpolicy
      exact .inl ⟨ipprot, _, ⟨hproto, .inr hcheck, hret⟩, .inr rfl, rfl⟩
    · exact .inr ⟨hback fun h => hret h.ret_neg, rfl, rfl, rfl, by simp, by simp⟩
    · exact .inr ⟨hback fun h => hret h.ret_neg, rfl, rfl, rfl, by simp, by simp⟩

theorem next_deliverRound_iff (s t : Payload × ℕ) :
    Retry.Next (deliverRound k) t s ↔ ∃ ipprot, HandsBack k s ipprot ∧ t = ipprot.rest s.1 := by
  unfold Retry.Next
  rcases deliverRound_cases k s with ⟨ipprot, reset, hback, -, hround⟩ | ⟨hnone, hlast, -⟩
  · rw [hround]
    constructor
    · intro h
      exact ⟨ipprot, hback, (Option.some.inj h).symm⟩
    · rintro ⟨ipprot', hback', rfl⟩
      rw [Option.some.inj (hback.proto.symm.trans hback'.proto)]
  · rw [hlast]
    exact iff_of_false nofun fun ⟨ipprot, hback, _⟩ => hnone ⟨ipprot, hback⟩

theorem delivered_round {s t : Payload × ℕ} {log : List Delivery}
    (h : (deliverRound k s).2 = some t) (hlog : Delivered t.1.id log) :
    Delivered s.1.id ((deliverRound k s).1 ++ log) := by
  rcases deliverRound_cases k s with ⟨ipprot, reset, -, hreset, hround⟩ | ⟨-, hlast, -⟩
  · rw [hround] at h ⊢
    cases h
    obtain ⟨hended, hcounted, hconsumed, hunreach⟩ := hlog
    have hid : (ipprot.rest s.1).1.id = s.1.id := ipprot.id_handler s.1
    rw [hid] at hended hconsumed hunreach
    dsimp only
    have hquiet : ∀ e ∈ Delivery.raw s.2 (k.rawLocalDeliver s.1 s.2) :: reset ++ [.resubmit s.2],
        e.ended = none ∧ e.isDelivered = false ∧ e ≠ .inDelivers ∧ e ≠ .icmpProtUnreach := by
      rcases hreset with rfl | rfl <;> simp [Delivery.ended, Delivery.isDelivered]
    refine ⟨?_, ?_, fun hmem => ?_, fun hmem => ?_⟩
    · rw [List.filterMap_append, hended,
        List.filterMap_eq_nil_iff.mpr fun e he => (hquiet e he).1]
      rfl
    · have hcount := List.count_eq_zero.mpr fun hmem => (hquiet .inDelivers hmem).2.2.1 rfl
      have hfilter := List.filter_eq_nil_iff.mpr fun e he =>
        Bool.eq_false_iff.mp (hquiet e he).2.1
      rw [List.count_append, List.filter_append, hcounted, hcount, hfilter, List.nil_append,
        zero_add]
    · rcases List.mem_append.mp hmem with hmem | hmem
      · cases (hquiet _ hmem).1
      · obtain ⟨pre, protocol, hlog⟩ := hconsumed hmem
        exact ⟨_ ++ pre, protocol, by rw [hlog, ← List.append_assoc _ pre]⟩
    · rcases List.mem_append.mp hmem with hmem | hmem
      · exact absurd rfl (hquiet _ hmem).2.2.2
      · obtain ⟨pre, protocol, hlog⟩ := hunreach hmem
        exact ⟨_ ++ pre, protocol, by rw [hlog, ← List.append_assoc _ pre]⟩
  · rw [hlast] at h
    cases h

theorem delivered_of_run {n : ℕ} {skb : Payload} {protocol : ℕ} {log : List Delivery}
    (h : ipProtocolDeliverRcu k n skb protocol = some log) : Delivered skb.id log := by
  refine Retry.run_induction (P := fun s log => Delivered s.1.id log) (fun s hs => ?_)
    (fun s t log hs hlog => delivered_round k hs hlog) h
  rcases deliverRound_cases k s with ⟨ipprot, reset, -, -, hround⟩ | ⟨-, -, hdelivered⟩
  · rw [hround] at hs
    cases hs
  · exact hdelivered

end Rounds

/-- Above the IP layer are a tunnel, which takes off a header and hands back what is in it, and the
protocol that is in it. -/
def Upper.tunnel : Upper where
  rawLocalDeliver _ _ := false
  inetProtos protocol :=
    if protocol = 4 then some
      { noPolicy := true
        handler := fun skb =>
          if skb.linear.length < sizeofIphdr then (0, skb)
          else (-17, { skb with linear := skb.linear.drop sizeofIphdr })
        id_handler := fun skb => by split_ifs <;> rfl }
    else if protocol = 17 then some ⟨false, fun skb => (0, skb), fun _ => rfl⟩
    else none
  xfrm4PolicyCheck _ := true
  ipDefrag _ := none
  nfLocalIn := some
  cloneFails _ := false
  id_ipDefrag _ _ h := by simp at h
  id_nfLocalIn _ _ h := by rw [Option.some.inj h]

/-- A packet in a packet. -/
def tunnelled : LocalSkb where
  toSkb := { loopback 0 with
    linear := [0x45, 0, 0, 40, 0, 0, 0, 0, 64, 4, 0x7c, 0xd0, 127, 0, 0, 1, 127, 0, 0, 1] ++
      (loopback 0).bytes
    paged := []
    transportHeader := 20 }
  hdr_le := by decide
  transport_le := by decide

/-- **When the delivery comes to an end.** Whatever is above the IP layer, the delivery of a packet
ends if and only if it is not handed back for ever, from one handler to the next; and if it ends,
the packet was consumed once, and counted and answered by what its last round has found.

Source: `linux/net/ipv4/ip_input.c`, lines 187–224. -/
theorem protocol_deliver_ends_iff (k : Upper) (skb : Payload) (protocol : ℕ) :
    ((∃ n log, ipProtocolDeliverRcu k n skb protocol = some log) ↔
        Acc (fun t s => ∃ ipprot, HandsBack k s ipprot ∧ t = ipprot.rest s.1) (skb, protocol)) ∧
      ∀ n log, ipProtocolDeliverRcu k n skb protocol = some log → Delivered skb.id log := by
  refine ⟨?_, fun n log h => delivered_of_run k h⟩
  have hnext : Retry.Next (deliverRound k) =
      fun t s => ∃ ipprot, HandsBack k s ipprot ∧ t = ipprot.rest s.1 := by
    ext t s
    exact next_deliverRound_iff k s t
  rw [← hnext]
  exact Retry.exists_run_iff_acc (skb, protocol)

/-- A raw socket takes the outer packet; the protocol of the inner one cannot be reached, and the
packet is freed and not counted. -/
example :
    ipLocalDeliver { Upper.tunnel with
        rawLocalDeliver := fun _ protocol => protocol = 4
        inetProtos := fun protocol =>
          if protocol = 4 then Upper.tunnel.inetProtos 4 else none } 2 tunnelled =
      some [.raw 4 true, .resubmit 4, .raw 17 false, .inUnknownProtos, .icmpProtUnreach,
        .kfreeSkb 0] :=
  rfl

/-- **A packet is consumed once.** If every handler that hands a packet back has taken something off
it, then from some number of rounds on the delivery of a packet for this host has ended, and the
packet has been consumed once, by a queue of fragments, a hook, a handler or the IP layer itself.

Source: `linux/net/ipv4/ip_input.c`, lines 187–255. -/
theorem local_deliver_consumes (k : Upper) (hshortens : Shortens k) (skb : LocalSkb) :
    ∃ N log, (∀ n, N ≤ n → ipLocalDeliver k n skb = some log) ∧
      log.filterMap Delivery.ended = [skb.id] ∧
        log.count .inDelivers = (log.filter Delivery.isDelivered).length := by
  unfold ipLocalDeliver
  have hdefrag : ∀ s, (if skb.ipHdr.isFragment then k.ipDefrag skb else some skb) = some s →
      s.id = skb.id := by
    intro s hs
    split_ifs at hs
    · exact k.id_ipDefrag _ _ hs
    · rw [Option.some.inj hs]
  cases hs : (if skb.ipHdr.isFragment then k.ipDefrag skb else some skb) with
  | none => exact ⟨0, [.ipDefrag skb.id], fun _ _ => rfl, rfl, rfl⟩
  | some s =>
    dsimp only
    cases ht : k.nfLocalIn s with
    | none =>
      refine ⟨0, [.nfLocalIn s.id], fun _ _ => rfl, ?_, rfl⟩
      exact congrArg (fun id => [id]) (hdefrag s hs)
    | some t =>
      have hsize : ∀ s t : Payload × ℕ, Retry.Next (deliverRound k) t s → t.1.len < s.1.len := by
        intro s t hnext
        obtain ⟨ipprot, hback, rfl⟩ := (next_deliverRound_iff k s t).mp hnext
        exact hshortens _ _ _ hback.proto hback.ret_neg
      obtain ⟨log, hlog⟩ := Retry.exists_run_of_lt hsize
        (t.pull, t.ipHdr.protocol.toNat)
      have hdelivered := delivered_of_run k (hlog _ (Nat.lt_succ_self _))
      have hid : t.pull.id = skb.id := (k.id_nfLocalIn _ _ ht).trans (hdefrag s hs)
      exact ⟨t.pull.len + 1, log, fun n hn => hlog n hn, hid ▸ hdelivered.ended_eq,
        hdelivered.counted⟩

theorem shortens_tunnel : Shortens Upper.tunnel := by
  intro protocol ipprot skb hproto hret
  simp only [Upper.tunnel] at hproto
  split_ifs at hproto with hfour hseventeen
  · cases hproto
    dsimp only at hret ⊢
    split_ifs at hret ⊢ with hlen
    · cases hret
    · simp only [Payload.len, List.length_drop]
      simp only [sizeofIphdr] at hlen ⊢
      omega
  · cases hproto
    cases hret

/-- The packet in a packet is consumed once. -/
theorem tunnelled_consumed :
    ∃ N log, (∀ n, N ≤ n → ipLocalDeliver Upper.tunnel n tunnelled = some log) ∧
      log.filterMap Delivery.ended = [0] ∧
        log.count .inDelivers = (log.filter Delivery.isDelivered).length :=
  local_deliver_consumes Upper.tunnel shortens_tunnel tunnelled

/-! ### Router alerts -/

/-- What is done with a packet for the chain of sockets. -/
inductive RaDelivery
  | rawRcvClone (sk : RaSock) (skb : LocalSkb)
  | rawRcv (sk : RaSock) (skb : LocalSkb)
  | ipDefrag (id : ℕ)

/-- A socket wants the packets of its protocol, from the interface that it is bound to. -/
def RaSock.Wants (sk : RaSock) (protocol : UInt8) (ifindex : ℕ) : Prop :=
  sk.inetNum = protocol ∧ (sk.boundDevIf = 0 ∨ sk.boundDevIf = ifindex)

instance (sk : RaSock) (protocol : UInt8) (ifindex : ℕ) : Decidable (sk.Wants protocol ifindex) :=
  inferInstanceAs (Decidable (_ ∧ _))

/-- The socket that was held back gets a clone, if one can be made. -/
def deliverLast (k : Upper) (skb : LocalSkb) : Option RaSock → List RaDelivery
  | none => []
  | some last => if k.cloneFails last then [] else [.rawRcvClone last skb]

/-- The loop of `ip_call_ra_chain`, with the socket `last` held back, and what follows it: what is
done, and whether the packet is taken.

Source: `linux/net/ipv4/ip_input.c`, lines 148–183. -/
def raLoop (k : Upper) (protocol : UInt8) (ifindex : ℕ) (last : Option RaSock) (skb : LocalSkb) :
    List (Option RaSock) → List RaDelivery × Bool
  | [] =>
    match last with
    | some last => ([.rawRcv last skb], true)
    | none => ([], false)
  | none :: chain => raLoop k protocol ifindex last skb chain
  | some sk :: chain =>
    if sk.Wants protocol ifindex then
      match (if skb.ipHdr.isFragment then k.ipDefrag skb else some skb) with
      | none => ([.ipDefrag skb.id], true)
      | some skb =>
        let rest := raLoop k protocol ifindex (some sk) skb chain
        (deliverLast k skb last ++ rest.1, rest.2)
    else raLoop k protocol ifindex last skb chain

/-- `ip_call_ra_chain`. -/
def ipCallRaChain (k : Upper) (chain : List (Option RaSock)) (skb : LocalSkb) :
    List RaDelivery × Bool :=
  raLoop k skb.ipHdr.protocol skb.dev.ifindex none skb chain

/-- The sockets of the chain that want the packet, in order. -/
def takers (protocol : UInt8) (ifindex : ℕ) (chain : List (Option RaSock)) : List RaSock :=
  (chain.filterMap id).filter fun sk => sk.Wants protocol ifindex

/-- Clones for all sockets of a list but the last, which gets the packet. -/
def shared (k : Upper) (skb : LocalSkb) : List RaSock → List RaDelivery
  | [] => []
  | [last] => [.rawRcv last skb]
  | sk :: sk' :: sks => deliverLast k skb (some sk) ++ shared k skb (sk' :: sks)

section Chain

variable (k : Upper) (protocol : UInt8) (ifindex : ℕ) (skb : LocalSkb)

theorem takers_none (chain : List (Option RaSock)) :
    takers protocol ifindex (none :: chain) = takers protocol ifindex chain :=
  rfl

theorem takers_some (sk : RaSock) (chain : List (Option RaSock)) :
    takers protocol ifindex (some sk :: chain) =
      if sk.Wants protocol ifindex then sk :: takers protocol ifindex chain
      else takers protocol ifindex chain := by
  have hcons : (some sk :: chain).filterMap id = sk :: chain.filterMap id := rfl
  rw [takers, hcons, List.filter_cons]
  simp only [decide_eq_true_eq]
  rfl

/-- With a socket held back and a packet in one piece, the loop serves that socket and all that
follow. -/
theorem raLoop_some (hwhole : skb.ipHdr.isFragment = false) (last : RaSock)
    (chain : List (Option RaSock)) :
    raLoop k protocol ifindex (some last) skb chain =
      (shared k skb (last :: takers protocol ifindex chain), true) := by
  induction chain generalizing last with
  | nil => rfl
  | cons ra chain ih =>
    cases ra with
    | none =>
      rw [raLoop, takers_none]
      exact ih last
    | some sk =>
      rw [raLoop, takers_some]
      split_ifs with hwants hfragment
      · rw [hwhole] at hfragment
        cases hfragment
      · dsimp only
        rw [ih sk]
        rfl
      · exact ih last

/-- Before a socket was found that wants the packet, the loop looks for the first one. -/
theorem raLoop_none (hdefrag : ∀ s, k.ipDefrag skb = some s → s.ipHdr.isFragment = false)
    (chain : List (Option RaSock)) :
    raLoop k protocol ifindex none skb chain =
      if takers protocol ifindex chain = [] then ([], false)
      else match (if skb.ipHdr.isFragment then k.ipDefrag skb else some skb) with
        | none => ([.ipDefrag skb.id], true)
        | some s => (shared k s (takers protocol ifindex chain), true) := by
  induction chain with
  | nil => rfl
  | cons ra chain ih =>
    cases ra with
    | none =>
      rw [raLoop, takers_none]
      exact ih
    | some sk =>
      rw [raLoop, takers_some]
      by_cases hwants : sk.Wants protocol ifindex
      · rw [if_pos hwants, if_pos hwants, if_neg (List.cons_ne_nil _ _)]
        cases hs : (if skb.ipHdr.isFragment then k.ipDefrag skb else some skb) with
        | none => rfl
        | some s =>
          have hwhole : s.ipHdr.isFragment = false := by
            split_ifs at hs with hfragment
            · exact hdefrag s hs
            · rw [← Option.some.inj hs]
              exact Bool.eq_false_iff.mpr hfragment
          dsimp only
          rw [raLoop_some k protocol ifindex s hwhole]
          rfl
      · rw [if_neg hwants, if_neg hwants]
        exact ih

end Chain

/-- **Who gets a packet with a router alert.** If no socket of the chain wants the packet, nothing
is done and the packet is left to the caller. Otherwise it is taken: a fragment may go to the queue,
and what is in one piece goes to every socket that wants it, in the order of the chain and once to
each: as a clone, if one can be made, to all but the last, and itself to the last.

Source: `linux/net/ipv4/ip_input.c`, lines 148–183. -/
theorem ra_chain_delivers (k : Upper) (chain : List (Option RaSock)) (skb : LocalSkb)
    (hdefrag : ∀ s, k.ipDefrag skb = some s → s.ipHdr.isFragment = false) :
    ipCallRaChain k chain skb =
      if takers skb.ipHdr.protocol skb.dev.ifindex chain = [] then ([], false)
      else match (if skb.ipHdr.isFragment then k.ipDefrag skb else some skb) with
        | none => ([.ipDefrag skb.id], true)
        | some s => (shared k s (takers skb.ipHdr.protocol skb.dev.ifindex chain), true) :=
  raLoop_none k _ _ skb hdefrag chain

/-- Of three sockets, one is bound to another interface; of the others, the first gets a clone. -/
theorem ra_chain_two_takers :
    ipCallRaChain Upper.tunnel [some ⟨0, 4, 0⟩, none, some ⟨1, 4, 2⟩, some ⟨2, 4, 1⟩] tunnelled =
      ([.rawRcvClone ⟨0, 4, 0⟩ tunnelled, .rawRcv ⟨2, 4, 1⟩ tunnelled], true) :=
  (ra_chain_delivers Upper.tunnel _ tunnelled fun _ h => by simp [Upper.tunnel] at h).trans rfl

end ExKernel.Ip
