import ExKernel.Ip.Lists
import Mathlib.Algebra.FreeMonoid.Basic

/-!
# A list of packets against its packets one by one

The list path of the IP layer collects packets in sublists, shows the whole of a sublist to the
hooks before any of its packets gets a route, and uses the route of one packet for the others. What
it does to the rest of the kernel is nevertheless what would have been done if the packets had come
in one by one, and the packets are handed on in the same order, if the rest of the kernel is
regular: the route that it makes of a hint is the one that a lookup would give, and no other way
leads to a route.

## Main definitions

* `Ip.Regular`: what the kernel promises about hints, and settings under which no other way leads to
  a route.

## Main results

* `Ip.sublists_maximal`: what the sublists are.
* `Ip.list_rcv_eq_rcv`: the list against its packets one by one.

## References

* `linux/net/ipv4/ip_input.c`, lines 305–430 and 548–662.
-/

namespace ExKernel.Ip

open Batch

/-- The rest of the kernel is *regular*: the route that is made of a hint is the one that a lookup
would give for the packet, if the hint was looked up for the same destination and service and there
are no rules of one's own, nor is it the route of a broadcast; what is looked up is a route; sockets
are not searched for early; the hooks leave the device and the route of a packet, and the handler of
a master device leaves the route; and every device has an address and does not accept source
routes. -/
structure Regular (env : Env) : Prop where
  useHint : ∀ dev (skb skb' : IpSkb) rt, env.hasCustomRules dev.net = false →
    env.ipRouteInputNoref dev skb' = .ok rt → rt.rtType ≠ .broadcast →
    skb.ipHdr.daddr = skb'.ipHdr.daddr → skb.ipHdr.tos = skb'.ipHdr.tos →
    env.ipRouteUseHint dev skb rt = env.ipRouteInputNoref dev skb
  metadata : ∀ dev skb rt, env.ipRouteInputNoref dev skb = .ok rt → rt.metadata = false
  earlyDemux : ∀ net, env.sysctlIpEarlyDemux net = false
  nfHook : ∀ net dev skb skb', env.nfHook net dev skb = some skb' →
    skb'.dev = skb.dev ∧ skb'.dst = skb.dst
  l3mdev : ∀ skb skb', env.l3mdevIpRcv skb = some skb' → skb'.dst = skb.dst
  sourceRoute : ∀ dev, ∃ inDev, env.inDev dev = some inDev ∧ inDev.sourceRoute = false

/-- The packet has no route yet. -/
def NoRoute (skb : Skb) : Prop := ∀ rt ∈ skb.dst, rt.metadata = true

/-- The hint was looked up, for a packet with its header. -/
structure Looked (env : Env) (dev : NetDevice) (hint : Routed) : Prop where
  rules : env.hasCustomRules dev.net = false
  rtType_ne : hint.rt.rtType ≠ .broadcast
  lookup : ∃ s, env.ipRouteInputNoref dev s = .ok hint.rt ∧ s.ipHdr = hint.ipHdr

section Route

variable {env : Env} {net : ℕ} {dev : NetDevice} {skb : IpSkb} {hint : Option Routed}

theorem earlyDemux_eq (h : Regular env) (net : ℕ) (skb : IpSkb) :
    earlyDemux env net skb = .ok skb := by
  unfold earlyDemux
  rw [h.earlyDemux net, if_neg (by simp)]

theorem ipRouteInput_of_noRoute (h : NoRoute skb.toSkb) :
    ipRouteInput env dev skb = (env.ipRouteInputNoref dev skb).map skb.setDst := by
  unfold ipRouteInput
  split
  · rfl
  · next rt hrt => rw [if_pos (h rt hrt)]

theorem ipRouteInput_setDst {rt : Dst} (h : rt.metadata = false) :
    ipRouteInput env dev (skb.setDst rt).toIpSkb = .ok (skb.setDst rt) := by
  unfold ipRouteInput
  split
  · next hnone => cases hnone
  · next rt' hrt =>
    cases hrt
    rw [if_neg (by simp [h])]
    rfl

/-- With or without a hint, the route is the one that is looked up. -/
theorem findRoute_eq (h : Regular env) (hroute : NoRoute skb.toSkb)
    (hhint : ∀ r ∈ hint, Looked env dev r) :
    findRoute env net dev skb hint = (env.ipRouteInputNoref dev skb).map skb.setDst := by
  have hnone : (earlyDemux env net skb >>= fun s => ipRouteInput env dev s) =
      (env.ipRouteInputNoref dev skb).map skb.setDst := by
    rw [earlyDemux_eq h]
    exact ipRouteInput_of_noRoute hroute
  unfold findRoute useHint
  cases hint with
  | none => exact hnone
  | some r =>
    dsimp only
    split_ifs with hcan
    · obtain ⟨hrules, hne, s, hlookup, hhdr⟩ := hhint r rfl
      simp only [ipCanUseHint, Bool.and_eq_true, beq_iff_eq] at hcan
      rw [← hhdr] at hcan
      rw [h.useHint dev skb s r.rt hrules hlookup hne hcan.1.2.symm hcan.2.symm]
      cases hrt : env.ipRouteInputNoref dev skb with
      | error err => rfl
      | ok rt =>
        change (earlyDemux env net (skb.setDst rt).toIpSkb >>= fun s => ipRouteInput env dev s) = _
        rw [earlyDemux_eq h]
        exact ipRouteInput_setDst (h.metadata _ _ _ hrt)
    · exact hnone

theorem ipRcvFinishCore_hint (h : Regular env) (hroute : NoRoute skb.toSkb)
    (hhint : ∀ r ∈ hint, Looked env dev r) :
    (ipRcvFinishCore env net skb dev hint).1 =
        readHint skb hint ++ (ipRcvFinishCore env net skb dev none).1 ∧
      (ipRcvFinishCore env net skb dev hint).2 = (ipRcvFinishCore env net skb dev none).2 := by
  unfold ipRcvFinishCore
  have hnone : findRoute env net dev skb none =
      (env.ipRouteInputNoref dev skb).map skb.setDst := findRoute_eq h hroute nofun
  rw [findRoute_eq h hroute hhint, ← hnone]
  rcases findRoute env net dev skb none with err | r
  · exact ⟨List.append_assoc _ _ _, rfl⟩
  dsimp only
  split
  · exact ⟨List.append_assoc _ _ _, rfl⟩
  · split
    · exact ⟨by simp only [List.append_assoc]; rfl, rfl⟩
    · exact ⟨by simp only [List.append_assoc]; rfl, rfl⟩

/-- Without source routes, the options leave the route and the bytes as they are. -/
theorem ipRcvOptions_some (h : Regular env) {r r' : Routed}
    (hr : (ipRcvOptions env dev r).2 = some r') : r'.rt = r.rt ∧ r'.linear = r.linear := by
  unfold ipRcvOptions at hr
  obtain ⟨inDev, hinDev, hsource⟩ := h.sourceRoute dev
  split_ifs at hr
  dsimp only at hr
  split at hr
  · cases hr
  · split_ifs at hr
    · rw [hinDev] at hr
      dsimp only at hr
      rw [hsource] at hr
      cases hr
    · cases hr
      exact ⟨rfl, rfl⟩

/-- A packet that was kept has the route that was looked up for its header. -/
theorem lookup_of_ipRcvFinishCore (h : Regular env) (hroute : NoRoute skb.toSkb)
    (hhint : ∀ r ∈ hint, Looked env dev r) {r : Routed}
    (hr : (ipRcvFinishCore env net skb dev hint).2 = some r) :
    ∃ s, env.ipRouteInputNoref dev s = .ok r.rt ∧ s.ipHdr = r.ipHdr := by
  obtain ⟨s, hs, hr⟩ := findRoute_of_ipRcvFinishCore hr
  rw [findRoute_eq h hroute hhint] at hs
  obtain ⟨rt, hlookup, rfl⟩ := exists_of_map_ok hs
  refine ⟨skb, ?_⟩
  rcases hr with rfl | hr
  · exact ⟨hlookup, rfl⟩
  · obtain ⟨hrt, hlinear⟩ := ipRcvOptions_some h hr
    have hhdr : skb.ipHdr = r.ipHdr := by
      simp only [IpSkb.ipHdr, hlinear]
      rfl
    rw [hrt]
    exact ⟨hlookup, hhdr⟩

end Route

/-! ### What is counted -/

/-- What is counted of effects does not see that a hint is looked into, nor the order of effects,
but for that of the packets that are handed on. -/
structure Observes {M : Type*} [AddMonoid M] (φ : Effect → M) : Prop where
  hint_eq_zero : ∀ id hint, φ (.readHint id hint) = 0
  comm : ∀ e e', (∀ r, e ≠ .dstInput r) → AddCommute (φ e) (φ e')

section Sums

variable {M : Type*} [AddMonoid M] {φ : Effect → M} {env : Env} {dev : NetDevice}

theorem Observes.sum_readHint (hφ : Observes φ) (skb : IpSkb) (hint : Option Routed) :
    ((readHint skb hint).map φ).sum = 0 := by
  unfold readHint
  split
  · rfl
  · split_ifs
    · simp [hφ.hint_eq_zero]
    · rfl

/-- A log in which no packet is handed on commutes with every log. -/
theorem Observes.sum_comm (hφ : Observes φ) {log : List Effect}
    (hlog : ∀ e ∈ log, ∀ r, e ≠ .dstInput r) (log' : List Effect) :
    AddCommute (log.map φ).sum (log'.map φ).sum := by
  refine AddCommute.list_sum_left _ _ fun a ha => AddCommute.list_sum_right _ _ fun b hb => ?_
  obtain ⟨e, he, rfl⟩ := List.mem_map.mp ha
  obtain ⟨e', -, rfl⟩ := List.mem_map.mp hb
  exact hφ.comm e e' (hlog e he)

theorem look_finish_none {net : ℕ} {hint : Option Routed} {x : IpSkb}
    (h : env.l3mdevIpRcv x = none) :
    (finishLoop env net).look hint x = ([.l3mdev x.id], none) := by
  simp only [finishLoop, h]

theorem look_finish_some {net : ℕ} {hint : Option Routed} {x s : IpSkb}
    (h : env.l3mdevIpRcv x = some s) :
    (finishLoop env net).look hint x = ipRcvFinishCore env net s x.dev hint := by
  simp only [finishLoop, h]

theorem look_finish_ne_dstInput (env : Env) (net : ℕ) (hint : Option Routed) (skb : IpSkb) :
    ∀ e ∈ ((finishLoop env net).look hint skb).1, ∀ r, e ≠ .dstInput r := by
  intro e he r
  simp only [finishLoop] at he
  split at he
  · rw [List.mem_singleton.mp he]
    simp
  · next s hs =>
    obtain ⟨log, hlog, hearly, -⟩ := ipRcvFinishCore_cases env net s skb.dev hint
    rw [hlog] at he
    rcases List.mem_append.mp he with he | he
    · unfold readHint at he
      split at he
      · cases he
      · split_ifs at he
        · rw [List.mem_singleton.mp he]
          simp
        · cases he
    · exact (hearly e he).2 r

theorem sum_ipListRcvFinish (h : Regular env) (hφ : Observes φ) (xs : List IpSkb)
    (hxs : ∀ x ∈ xs, x.dev = dev ∧ NoRoute x.toSkb) :
    ((ipListRcvFinish env dev.net xs).map φ).sum =
      (xs.map fun x => ((ipRcvFinish env dev.net x).map φ).sum).sum := by
  have hsplits : (finishLoop env dev.net).Splits φ (fun r => φ (.dstInput r)) fun _ => True := by
    intro k sublist _
    simp only [finishLoop, List.map_map]
    rfl
  refine (Loop.sum_run (I := fun _ hint => ∀ r ∈ hint, Looked env dev r) hsplits xs
    (fun cur hint hI hnone x hx => ?_) (by simp) (by simp) fun _ => rfl).trans (zero_add _)
  obtain ⟨hdev, hroute⟩ := hxs x hx
  have hhint : ∀ r ∈ hint, Looked env dev r := by
    cases cur with
    | none =>
      rw [hnone rfl]
      exact fun r hr => absurd hr (Option.not_mem_none r)
    | some k => exact hI k rfl
  refine ⟨?_, fun r => ?_, fun _ _ => trivial, fun r hr _ => ?_⟩
  · cases hs : env.l3mdevIpRcv x with
    | none =>
      rw [look_finish_none hs, ipRcvFinish, hs]
      simp
    | some s =>
      have hroute' : NoRoute s.toSkb := by
        rw [NoRoute, h.l3mdev _ _ hs]
        exact hroute
      have hcore : (ipRcvFinishCore env dev.net s dev hint).1 =
            readHint s hint ++ (ipRcvFinishCore env dev.net s dev none).1 ∧
          (ipRcvFinishCore env dev.net s dev hint).2 =
            (ipRcvFinishCore env dev.net s dev none).2 :=
        ipRcvFinishCore_hint h hroute' hhint
      obtain ⟨hlog, hkept⟩ := hcore
      rw [look_finish_some hs, ipRcvFinish, hs, hdev, hlog, hkept, List.map_append,
        List.sum_append, hφ.sum_readHint, zero_add, List.map_append, List.sum_append]
      cases (ipRcvFinishCore env dev.net s dev none).2 <;> simp
  · have hcomm := hφ.sum_comm (look_finish_ne_dstInput env dev.net hint x) [.dstInput r]
    rwa [List.map_singleton, List.sum_singleton] at hcomm
  · intro r' hr'
    cases hs : env.l3mdevIpRcv x with
    | none =>
      rw [look_finish_none hs] at hr
      cases hr
    | some s =>
    have hroute' : NoRoute s.toSkb := by
      rw [NoRoute, h.l3mdev _ _ hs]
      exact hroute
    rw [look_finish_some hs, hdev] at hr
    simp only [finishLoop] at hr'
    unfold ipExtractRouteHint at hr'
    split_ifs at hr' with hno
    · cases hr'
    · obtain ⟨hrules, hne⟩ := not_or.mp hno
      cases hr'
      exact ⟨Bool.not_eq_true _ ▸ hrules, hne, lookup_of_ipRcvFinishCore h hroute' hhint hr⟩

theorem sum_ipSublistRcv (h : Regular env) (hφ : Observes φ) (xs : List IpSkb)
    (hxs : ∀ x ∈ xs, x.dev = dev ∧ NoRoute x.toSkb) :
    ((ipSublistRcv env dev dev.net xs).map φ).sum =
      (xs.map fun x => ((nfHook env dev.net dev x).map φ).sum).sum := by
  have hpass : ∀ y ∈ xs.filterMap (env.nfHook dev.net dev), y.dev = dev ∧ NoRoute y.toSkb := by
    intro y hy
    obtain ⟨x, hx, hhook⟩ := List.mem_filterMap.mp hy
    obtain ⟨hdev, hdst⟩ := h.nfHook _ _ _ _ hhook
    rw [hdev, NoRoute, hdst]
    exact hxs x hx
  rw [ipSublistRcv, List.map_append, List.sum_append, sum_ipListRcvFinish h hφ _ hpass]
  clear hpass hxs
  induction xs with
  | nil => simp [nfHookList]
  | cons x xs ih =>
    rw [List.map_cons, List.sum_cons, ← ih, nfHookList, List.flatMap_cons, ← nfHookList,
      List.map_append, List.sum_append]
    cases hx : env.nfHook dev.net dev x with
    | none =>
      rw [List.filterMap_cons_none hx, if_pos rfl, nfHook, hx]
      exact add_assoc _ _ _
    | some s =>
      have hhook : ∀ e ∈ nfHookList env dev.net dev xs, ∀ r, e ≠ .dstInput r := by
        intro e he r
        obtain ⟨y, -, he⟩ := List.mem_flatMap.mp he
        split_ifs at he
        · rw [List.mem_singleton.mp he]
          simp
        · cases he
      have hcomm := hφ.sum_comm hhook (ipRcvFinish env dev.net s)
      rw [List.filterMap_cons_some hx, if_neg (by simp), nfHook, hx, List.map_cons, List.sum_cons]
      dsimp only
      rw [List.map_nil, List.sum_nil, zero_add, ← add_assoc, hcomm.eq, add_assoc]

theorem sum_ipListRcv (h : Regular env) (hφ : Observes φ) (head : List Skb)
    (hhead : ∀ skb ∈ head, NoRoute skb) :
    ((ipListRcv env head).map φ).sum =
      (head.map fun skb => ((ipRcv env skb skb.dev).map φ).sum).sum := by
  have hsplits : (rcvLoop env).Splits φ
      (fun s => ((nfHook env s.dev.net s.dev s).map φ).sum) fun s => NoRoute s.toSkb := by
    rintro ⟨dev, net⟩ sublist hsublist
    have hdev : ∀ s ∈ sublist, s.dev = dev ∧ s.dev.net = net := fun s hs =>
      Prod.ext_iff.mp (hsublist s hs).1
    cases sublist with
    | nil => simp [rcvLoop, ipSublistRcv, nfHookList, ipListRcvFinish, Loop.run, Loop.dispatch]
    | cons s sublist =>
      have hnet : net = dev.net := by
        obtain ⟨hs, hs'⟩ := hdev s List.mem_cons_self
        rw [← hs', hs]
      rw [hnet]
      refine (sum_ipSublistRcv h hφ _ fun t ht => ⟨(hdev t ht).1, (hsublist t ht).2⟩).trans ?_
      refine congrArg List.sum (List.map_congr_left fun t ht => ?_)
      rw [(hdev t ht).1]
  refine (Loop.sum_run (I := fun _ _ => True) hsplits head (fun cur hint _ _ skb hskb => ?_)
    (by simp) (fun _ _ => trivial) fun _ => rfl).trans (zero_add _)
  have hlook : (rcvLoop env).look hint skb = ipRcvCore env skb.dev.net skb := rfl
  rcases ipRcvCore_cases env skb.dev.net skb with
    ⟨log, hcore, -, hearly⟩ | ⟨log, s, hcore, -, hearly, haccepted⟩
  · refine ⟨?_, fun t => ?_, ?_, fun _ _ _ => trivial⟩
    · rw [hlook, ipRcv, hcore]
      simp
    · rw [hlook, hcore]
      exact (hφ.sum_comm (fun e he => (hearly e he).2) _).eq
    · rw [hlook, hcore]
      exact fun t ht => absurd ht (Option.not_mem_none t)
  · have hdev : s.dev = skb.dev := by rw [haccepted.rest_eq]
    have hdst : s.dst = skb.dst := by rw [haccepted.rest_eq]
    refine ⟨?_, fun t => ?_, ?_, fun _ _ _ => trivial⟩
    · rw [hlook, ipRcv, hcore]
      simp [hdev]
    · rw [hlook, hcore]
      exact (hφ.sum_comm (fun e he => (hearly e he).2) _).eq
    · rw [hlook, hcore]
      intro t ht
      obtain rfl : s = t := Option.some.inj ht
      rw [NoRoute, hdst]
      exact hhead skb hskb

end Sums

/-! ### The list path -/

/-- **The sublists.** Whatever the rest of the kernel does, the sublists that are shown to the hooks
are the longest stretches of accepted packets from one device, and within each of them, those that
are handed on at once are the longest stretches of packets with one route.

Source: `linux/net/ipv4/ip_input.c`, lines 581–662. -/
theorem sublists_maximal (env : Env) :
    (∀ head, (rcvLoop env).groups head =
        (head.filterMap fun skb => (ipRcvCore env skb.dev.net skb).2).splitBy
          fun s t => s.dev = t.dev) ∧
      ∀ net xs, (finishLoop env net).groups xs =
        ((finishLoop env net).kept none none xs).splitBy fun r t => r.rt = t.rt := by
  refine ⟨fun head => ?_, fun net xs => Loop.groups_eq xs⟩
  have hkey : (fun s t : IpSkb => decide ((rcvLoop env).key s = (rcvLoop env).key t)) =
      fun s t => decide (s.dev = t.dev) := by
    funext s t
    refine decide_eq_decide.mpr ⟨fun h => (Prod.ext_iff.mp h).1, fun h => ?_⟩
    simp only [rcvLoop, h]
  rw [Loop.groups_eq, hkey]
  exact congrArg _ (Loop.kept_eq_filterMap none none fun _ _ _ => rfl)

/-- Another packet is looked into. -/
def Effect.isReadHint : Effect → Bool
  | .readHint _ _ => true
  | _ => false

/-- The packet that is handed on. -/
def Effect.input : Effect → Option Routed
  | .dstInput skb => some skb
  | _ => none

/-- The effects as a multiset, without those on hints. -/
def Effect.seen (e : Effect) : Multiset Effect := if e.isReadHint then 0 else {e}

/-- The packets that are handed on, as a word. -/
def Effect.inputWord (e : Effect) : FreeAddMonoid Routed := FreeAddMonoid.ofList e.input.toList

theorem sum_seen (log : List Effect) :
    (log.map Effect.seen).sum = (log.filter fun e => !e.isReadHint : Multiset Effect) := by
  induction log with
  | nil => rfl
  | cons e log ih =>
    rw [List.map_cons, List.sum_cons, ih, Effect.seen, List.filter_cons]
    cases e.isReadHint <;> rfl

theorem sum_inputWord (log : List Effect) :
    (log.map Effect.inputWord).sum = FreeAddMonoid.ofList (log.filterMap Effect.input) := by
  induction log with
  | nil => rfl
  | cons e log ih =>
    rw [List.map_cons, List.sum_cons, ih, Effect.inputWord, ← FreeAddMonoid.ofList_append]
    cases he : e.input with
    | none => rw [List.filterMap_cons_none he, Option.toList_none, List.nil_append]
    | some r => rw [List.filterMap_cons_some he, Option.toList_some, List.singleton_append]

theorem observes_seen : Observes Effect.seen where
  hint_eq_zero _ _ := rfl
  comm _ _ _ := AddCommute.all _ _

theorem observes_inputWord : Observes Effect.inputWord where
  hint_eq_zero _ _ := rfl
  comm e e' h := by
    have hzero : e.inputWord = 0 := by
      cases e with
      | dstInput r => exact absurd rfl (h r)
      | _ => rfl
    rw [hzero]
    exact AddCommute.zero_left _

theorem sum_flatMap {α M : Type*} [AddMonoid M] (φ : Effect → M) (f : α → List Effect)
    (xs : List α) : ((xs.flatMap f).map φ).sum = (xs.map fun x => ((f x).map φ).sum).sum := by
  induction xs with
  | nil => rfl
  | cons x xs ih => simp [ih]

/-- **The list path agrees with the path of single packets.** In a regular kernel, what is done for
a list of packets that have no route yet, but for the hints that are looked into, is what is done
for the packets one by one, and they are handed on in the same order.

Source: `linux/net/ipv4/ip_input.c`, lines 305–430 and 548–662. -/
theorem list_rcv_eq_rcv (env : Env) (h : Regular env) (head : List Skb)
    (hhead : ∀ skb ∈ head, NoRoute skb) :
    ((ipListRcv env head).filter fun e => !e.isReadHint).Perm
        ((head.flatMap fun skb => ipRcv env skb skb.dev).filter fun e => !e.isReadHint) ∧
      (ipListRcv env head).filterMap Effect.input =
        (head.flatMap fun skb => ipRcv env skb skb.dev).filterMap Effect.input := by
  constructor
  · rw [← Multiset.coe_eq_coe, ← sum_seen, ← sum_seen, sum_flatMap]
    exact sum_ipListRcv h observes_seen head hhead
  · refine FreeAddMonoid.ofList.injective ?_
    rw [← sum_inputWord, ← sum_inputWord, sum_flatMap]
    exact sum_ipListRcv h observes_inputWord head hhead

/-- In a kernel that has one route, and so the same for every hint. -/
theorem regular_still {rt : Dst} (hmetadata : rt.metadata = false) : Regular (Env.still rt) where
  useHint _ _ _ _ _ h _ _ _ := h.symm
  metadata _ _ _ h := by rwa [← Except.ok.inj h]
  earlyDemux _ := rfl
  nfHook _ _ _ _ h := by simp [Option.some.inj h]
  l3mdev _ _ h := by simp [Option.some.inj h]
  sourceRoute _ := ⟨_, rfl, rfl⟩

/-- Two packets of the host to itself, of which the second one gets the route of the first. -/
theorem loopback_list_eq :
    ((ipListRcv (Env.still ⟨0, .toLocal, false⟩) [loopback 0, loopback 1]).filter
        fun e => !e.isReadHint).Perm
      (([loopback 0, loopback 1].flatMap fun skb =>
        ipRcv (Env.still ⟨0, .toLocal, false⟩) skb skb.dev).filter fun e => !e.isReadHint) ∧
    (ipListRcv (Env.still ⟨0, .toLocal, false⟩) [loopback 0, loopback 1]).filterMap Effect.input =
      ([loopback 0, loopback 1].flatMap fun skb =>
        ipRcv (Env.still ⟨0, .toLocal, false⟩) skb skb.dev).filterMap Effect.input :=
  list_rcv_eq_rcv _ (regular_still rfl) _ (by
    intro skb hskb
    rcases List.mem_pair.mp hskb with rfl | rfl <;> exact nofun)

end ExKernel.Ip
