import ExKernel.Ip.Core

/-!
# The way of a single packet

After the entry, a packet is shown to the hooks, given to the handler of a master device if there is
one, and then gets its route: from the hint that another packet gives, from the socket that it is
for, or by a lookup. Its options are evaluated, and it is handed on to the function that its route
names.

## Main definitions

* `Ip.ipRcvOptions`, `Ip.findRoute`, `Ip.ipRcvFinishCore`.
* `Ip.ipRcvFinish`, `Ip.ipRcv`: what becomes of a packet that comes in alone.

## Main results

* `Ip.ipRcvFinishCore_cases`: what becomes of a packet that gets its route.
* `Ip.ended_ipRcv`: a packet that comes in alone is given up once.

## References

* `linux/net/ipv4/ip_input.c`, lines 257–430 and 548–560.
-/

namespace ExKernel.Ip

def EXDEV : ℤ := 18

/-! ### The route -/

/-- `skb_dst_set(skb, dst)`. -/
def IpSkb.setDst (skb : IpSkb) (rt : Dst) : Routed :=
  { skb with
    dst := some rt
    rt := rt
    dst_eq := rfl }

/-- `ip_can_use_hint(skb, iph, hint)`. -/
def ipCanUseHint (skb : IpSkb) (hint : Routed) : Bool :=
  skb.dst.isNone && hint.ipHdr.daddr == skb.ipHdr.daddr && hint.ipHdr.tos == skb.ipHdr.tos

/-- The hint is looked into only for a packet without a destination entry. -/
def readHint (skb : IpSkb) : Option Routed → List Effect
  | none => []
  | some hint => if skb.dst.isNone then [.readHint skb.id hint.id] else []

/-- The route of the hint, if it can be used.

Source: `linux/net/ipv4/ip_input.c`, lines 323–328. -/
def useHint (env : Env) (dev : NetDevice) (skb : IpSkb) : Option Routed → Except ℤ IpSkb
  | none => .ok skb
  | some hint =>
    if ipCanUseHint skb hint then
      (env.ipRouteUseHint dev skb hint.rt).map fun rt => (skb.setDst rt).toIpSkb
    else .ok skb

/-- The route and the socket that the protocol finds early.

Source: `linux/net/ipv4/ip_input.c`, lines 330–346. -/
def earlyDemux (env : Env) (net : ℕ) (skb : IpSkb) : Except ℤ IpSkb :=
  if env.sysctlIpEarlyDemux net ∧ skb.dst = none ∧ skb.sk = none ∧ ¬ skb.ipHdr.isFragment then
    match env.earlyDemux skb.ipHdr.protocol with
    | none => .ok skb
    | some edemux => edemux skb
  else .ok skb

/-- The route of a packet that has one (`skb_valid_dst`), and otherwise the one that is looked up.

Source: `linux/net/ipv4/ip_input.c`, lines 352–357. -/
def ipRouteInput (env : Env) (dev : NetDevice) (skb : IpSkb) : Except ℤ Routed :=
  match h : skb.dst with
  | none => (env.ipRouteInputNoref dev skb).map skb.setDst
  | some rt =>
    if rt.metadata then (env.ipRouteInputNoref dev skb).map skb.setDst
    else .ok { skb with
      rt := rt
      dst_eq := h }

/-- The three ways to a route, one after the other. -/
def findRoute (env : Env) (net : ℕ) (dev : NetDevice) (skb : IpSkb) (hint : Option Routed) :
    Except ℤ Routed := do
  let skb ← useHint env dev skb hint
  let skb ← earlyDemux env net skb
  ipRouteInput env dev skb

/-! ### The options -/

/-- `ip_rcv_options`, which says whether the packet is to be dropped; here the packet is returned if
it is not.

Source: `linux/net/ipv4/ip_input.c`, lines 257–303. -/
def ipRcvOptions (env : Env) (dev : NetDevice) (skb : Routed) : List Effect × Option Routed :=
  if env.cowFails skb.id then ([.stats dev.net .inDiscards 1 0], none)
  else
    let iph := skb.ipHdr
    let skb := { skb with optlen := iph.ihl * 4 - sizeofIphdr }
    match env.ipOptionsCompile dev.net skb.toIpSkb with
    | none => ([.stats dev.net .inHdrErrors 1 0], none)
    | some srr =>
      let skb := { skb with srr := srr }
      if srr then
        match env.inDev dev with
        | some inDev =>
          if inDev.sourceRoute then ([], env.ipOptionsRcvSrr dev skb)
          else (if inDev.logMartians then [.martian iph.saddr iph.daddr] else [], none)
        | none => ([], env.ipOptionsRcvSrr dev skb)
      else ([], some skb)

/-- The packet came in as a broadcast or a multicast of the link layer, its destination address is
neither, and the device is told to drop such packets. -/
def DropsUnicast (env : Env) (dev : NetDevice) (skb : Routed) : Prop :=
  (skb.pktType = .broadcast ∨ skb.pktType = .multicast) ∧
    ∃ inDev ∈ env.inDev dev, inDev.dropUnicastInL2Multicast = true

instance (env : Env) (dev : NetDevice) (skb : Routed) : Decidable (DropsUnicast env dev skb) :=
  inferInstanceAs (Decidable (_ ∧ ∃ inDev ∈ env.inDev dev, _))

/-! ### The packet is handed on -/

/-- The part of `ip_rcv_finish_core` behind the options: the counters, or the drop.

Source: `linux/net/ipv4/ip_input.c`, lines 373–400. -/
def countRoute (env : Env) (net : ℕ) (dev : NetDevice) (skb : Routed) :
    List Effect × Option Routed :=
  match skb.rt.rtType with
  | .multicast => ([.stats net .inMcast 1 skb.len], some skb)
  | .broadcast => ([.stats net .inBcast 1 skb.len], some skb)
  | _ => if DropsUnicast env dev skb then ([], none) else ([], some skb)

/-- `ip_rcv_finish_core`; the packet is returned in the place of `NET_RX_SUCCESS`.

Source: `linux/net/ipv4/ip_input.c`, lines 314–412. -/
def ipRcvFinishCore (env : Env) (net : ℕ) (skb : IpSkb) (dev : NetDevice) (hint : Option Routed) :
    List Effect × Option Routed :=
  let log := readHint skb hint
  match findRoute env net dev skb hint with
  | .error err =>
    (log ++ (if err = -EXDEV then [.stats net .ipRpFilter 1 0] else []) ++ [.kfreeSkb skb.id], none)
  | .ok r =>
    let options := if 5 < r.ipHdr.ihl then ipRcvOptions env dev r else ([], some r)
    match options.2 with
    | none => (log ++ options.1 ++ [.kfreeSkb skb.id], none)
    | some r =>
      let counted := countRoute env net dev r
      match counted.2 with
      | none => (log ++ options.1 ++ counted.1 ++ [.kfreeSkb skb.id], none)
      | some r => (log ++ options.1 ++ counted.1, some r)

/-- `ip_rcv_finish`.

Source: `linux/net/ipv4/ip_input.c`, lines 414–430. -/
def ipRcvFinish (env : Env) (net : ℕ) (skb : IpSkb) : List Effect :=
  match env.l3mdevIpRcv skb with
  | none => [.l3mdev skb.id]
  | some skb' =>
    let core := ipRcvFinishCore env net skb' skb.dev none
    core.1 ++ (core.2.map .dstInput).toList

/-- The hooks, for a packet that comes in alone. -/
def nfHook (env : Env) (net : ℕ) (dev : NetDevice) (skb : IpSkb) : List Effect :=
  match env.nfHook net dev skb with
  | none => [.nfHook skb.id]
  | some skb => ipRcvFinish env net skb

/-- `ip_rcv`.

Source: `linux/net/ipv4/ip_input.c`, lines 548–560. -/
def ipRcv (env : Env) (skb : Skb) (dev : NetDevice) : List Effect :=
  let core := ipRcvCore env dev.net skb
  match core.2 with
  | none => core.1
  | some skb => core.1 ++ nfHook env dev.net dev skb

/-! ### What is done to a packet -/

theorem ended_append (log log' : List Effect) : ended (log ++ log') = ended log ++ ended log' :=
  List.filterMap_append

theorem Early.append {log log' : List Effect} (h : Early log) (h' : Early log') :
    Early (log ++ log') := by
  intro e he
  rcases List.mem_append.mp he with he | he
  · exact h e he
  · exact h' e he

theorem exists_of_bind_ok {α β : Type} {x : Except ℤ α} {f : α → Except ℤ β} {b : β}
    (h : x >>= f = .ok b) : ∃ a, x = .ok a ∧ f a = .ok b := by
  cases x with
  | error e => cases h
  | ok a => exact ⟨a, rfl, h⟩

theorem exists_of_map_ok {α β : Type} {x : Except ℤ α} {f : α → β} {b : β}
    (h : x.map f = .ok b) : ∃ a, x = .ok a ∧ f a = b := by
  cases x with
  | error e => cases h
  | ok a => exact ⟨a, rfl, Except.ok.inj h⟩

section Cases

variable {env : Env} {net : ℕ} {dev : NetDevice} {skb : IpSkb} {hint : Option Routed}

theorem id_useHint {s : IpSkb} (h : useHint env dev skb hint = .ok s) : s.id = skb.id := by
  unfold useHint at h
  split at h
  · cases h
    rfl
  · split_ifs at h with hcan
    · obtain ⟨rt, -, rfl⟩ := exists_of_map_ok h
      rfl
    · cases h
      rfl

theorem id_earlyDemux {s : IpSkb} (h : earlyDemux env net skb = .ok s) : s.id = skb.id := by
  unfold earlyDemux at h
  split_ifs at h with hdemux
  · split at h
    · cases h
      rfl
    · exact env.id_earlyDemux _ _ _ _ ‹_› h
  · cases h
    rfl

theorem id_ipRouteInput {r : Routed} (h : ipRouteInput env dev skb = .ok r) : r.id = skb.id := by
  unfold ipRouteInput at h
  split at h
  · obtain ⟨rt, -, rfl⟩ := exists_of_map_ok h
    rfl
  · split_ifs at h with hmetadata
    · obtain ⟨rt, -, rfl⟩ := exists_of_map_ok h
      rfl
    · cases h
      rfl

theorem id_findRoute {r : Routed} (h : findRoute env net dev skb hint = .ok r) :
    r.id = skb.id := by
  obtain ⟨s, hs, h⟩ := exists_of_bind_ok h
  obtain ⟨t, ht, h⟩ := exists_of_bind_ok h
  rw [id_ipRouteInput h, id_earlyDemux ht, id_useHint hs]

/-- The options are evaluated without giving the packet up, which is left to the caller. -/
theorem ipRcvOptions_cases (env : Env) (dev : NetDevice) (skb : Routed) :
    ended (ipRcvOptions env dev skb).1 = [] ∧ Early (ipRcvOptions env dev skb).1 ∧
      ∀ r ∈ (ipRcvOptions env dev skb).2, r.id = skb.id := by
  unfold ipRcvOptions
  split_ifs with hcow
  · exact ⟨rfl, by simp [Early], fun r hr => absurd hr (Option.not_mem_none r)⟩
  dsimp only
  split
  · exact ⟨rfl, by simp [Early], fun r hr => absurd hr (Option.not_mem_none r)⟩
  split_ifs with hsrr
  · split
    · split_ifs with hsource hlog
      · exact ⟨rfl, by simp [Early], fun r hr => (env.id_rcvSrr _ _ r hr :)⟩
      · exact ⟨rfl, by simp [Early], fun r hr => absurd hr (Option.not_mem_none r)⟩
      · exact ⟨rfl, by simp [Early], fun r hr => absurd hr (Option.not_mem_none r)⟩
    · exact ⟨rfl, by simp [Early], fun r hr => (env.id_rcvSrr _ _ r hr :)⟩
  · refine ⟨rfl, by simp [Early], fun r hr => ?_⟩
    rw [← Option.some.inj hr]

theorem countRoute_cases (env : Env) (net : ℕ) (dev : NetDevice) (skb : Routed) :
    ended (countRoute env net dev skb).1 = [] ∧ Early (countRoute env net dev skb).1 ∧
      ∀ r ∈ (countRoute env net dev skb).2, r = skb := by
  unfold countRoute
  split
  · exact ⟨rfl, by simp [Early], fun r hr => (Option.some.inj hr).symm⟩
  · exact ⟨rfl, by simp [Early], fun r hr => (Option.some.inj hr).symm⟩
  · split_ifs with hdrops
    · exact ⟨rfl, by simp [Early], fun r hr => absurd hr (Option.not_mem_none r)⟩
    · exact ⟨rfl, by simp [Early], fun r hr => (Option.some.inj hr).symm⟩

/-- **What becomes of a packet** on its way to the route: the hint may be looked into, and then the
packet is given up once, or it has a route. -/
theorem ipRcvFinishCore_cases (env : Env) (net : ℕ) (skb : IpSkb) (dev : NetDevice)
    (hint : Option Routed) :
    ∃ log, (ipRcvFinishCore env net skb dev hint).1 = readHint skb hint ++ log ∧ Early log ∧
      ((ipRcvFinishCore env net skb dev hint).2 = none ∧ ended log = [skb.id] ∨
        ∃ r, (ipRcvFinishCore env net skb dev hint).2 = some r ∧ ended log = [] ∧
          r.id = skb.id) := by
  have hfree : ∀ log, ended log = [] → Early log →
      ended (log ++ [.kfreeSkb skb.id]) = [skb.id] ∧ Early (log ++ [.kfreeSkb skb.id]) := by
    intro log hended hearly
    refine ⟨?_, hearly.append (by simp [Early])⟩
    rw [ended_append, hended]
    rfl
  unfold ipRcvFinishCore
  rcases hroute : findRoute env net dev skb hint with err | r
  · have hlog : ended (if err = -EXDEV then [.stats net .ipRpFilter 1 0] else []) = [] ∧
        Early (if err = -EXDEV then [.stats net .ipRpFilter 1 0] else []) := by
      split_ifs
      · exact ⟨rfl, by simp [Early]⟩
      · exact ⟨rfl, by simp [Early]⟩
    obtain ⟨hended, hearly⟩ := hfree _ hlog.1 hlog.2
    exact ⟨_, List.append_assoc _ _ _, hearly, .inl ⟨rfl, hended⟩⟩
  dsimp only
  set options := if 5 < r.ipHdr.ihl then ipRcvOptions env dev r else ([], some r) with hoptions
  have hcases : ended options.1 = [] ∧ Early options.1 ∧ ∀ t ∈ options.2, t.id = r.id := by
    rw [hoptions]
    split_ifs
    · exact ipRcvOptions_cases env dev r
    · refine ⟨rfl, by simp [Early], fun t ht => ?_⟩
      rw [← Option.some.inj ht]
  obtain ⟨hended, hearly, hid⟩ := hcases
  rcases hoption : options.2 with _ | t
  · obtain ⟨hended', hearly'⟩ := hfree _ hended hearly
    exact ⟨_, List.append_assoc _ _ _, hearly', .inl ⟨rfl, hended'⟩⟩
  obtain ⟨hcended, hcearly, hceq⟩ := countRoute_cases env net dev t
  have hlog : ended (options.1 ++ (countRoute env net dev t).1) = [] := by
    rw [ended_append, hended, hcended]
    rfl
  dsimp only
  rcases hcounted : (countRoute env net dev t).2 with _ | u
  · obtain ⟨hended', hearly'⟩ := hfree _ hlog (hearly.append hcearly)
    exact ⟨_, by simp only [List.append_assoc], hearly', .inl ⟨rfl, hended'⟩⟩
  · refine ⟨_, List.append_assoc _ _ _, hearly.append hcearly, .inr ⟨u, rfl, hlog, ?_⟩⟩
    rw [hceq u hcounted, hid t hoption, id_findRoute hroute]

/-- The route of a packet that has one was found, and the options may have changed it. -/
theorem findRoute_of_ipRcvFinishCore {r : Routed}
    (h : (ipRcvFinishCore env net skb dev hint).2 = some r) :
    ∃ s, findRoute env net dev skb hint = .ok s ∧
      (r = s ∨ (ipRcvOptions env dev s).2 = some r) := by
  unfold ipRcvFinishCore at h
  rcases hroute : findRoute env net dev skb hint with err | s
  · rw [hroute] at h
    cases h
  rw [hroute] at h
  refine ⟨s, rfl, ?_⟩
  dsimp only at h
  split at h
  · cases h
  · next t ht =>
    split at h
    · cases h
    · next u hu =>
      have hru : r = t := by
        rw [← (countRoute_cases env net dev t).2.2 u hu]
        exact (Option.some.inj h).symm
      rw [hru]
      split_ifs at ht
      · exact .inr ht
      · exact .inl (Option.some.inj ht).symm

end Cases

/-! ### A packet that comes in alone -/

theorem ended_ipRcvFinish (env : Env) (net : ℕ) (skb : IpSkb) :
    ended (ipRcvFinish env net skb) = [skb.id] := by
  unfold ipRcvFinish
  split
  · rfl
  · next s hs =>
    obtain ⟨log, hlog, -, hcases⟩ := ipRcvFinishCore_cases env net s skb.dev none
    rcases hcases with ⟨hnone, hended⟩ | ⟨r, hsome, hended, hid⟩
    · dsimp only
      rw [hlog, hnone, ended_append, ended_append, hended, env.id_l3mdev _ _ hs]
      rfl
    · dsimp only
      rw [hlog, hsome, ended_append, ended_append, hended]
      exact congrArg (fun id => [id]) (hid.trans (env.id_l3mdev _ _ hs))

theorem ended_nfHook (env : Env) (net : ℕ) (dev : NetDevice) (skb : IpSkb) :
    ended (nfHook env net dev skb) = [skb.id] := by
  unfold nfHook
  split
  · rfl
  · next s hs => rw [ended_ipRcvFinish, env.id_nfHook _ _ _ _ hs]

/-- A packet that comes in alone is given up once. -/
theorem ended_ipRcv (env : Env) (skb : Skb) (dev : NetDevice) :
    ended (ipRcv env skb dev) = [skb.id] := by
  unfold ipRcv
  rcases ipRcvCore_cases env dev.net skb with
    ⟨log, hcore, hended, -⟩ | ⟨log, s, hcore, hended, -, haccepted⟩
  · rw [hcore]
    exact hended
  · have hid : s.id = skb.id := by rw [haccepted.rest_eq]
    rw [hcore]
    dsimp only
    rw [ended_append, hended, ended_nfHook, hid]
    rfl

end ExKernel.Ip
