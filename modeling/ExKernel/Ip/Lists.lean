import ExKernel.Ip.Finish
import ExKernel.Lib.Batch
import Mathlib.Algebra.BigOperators.Group.Multiset.Basic

/-!
# Packets that come in as a list

A driver may hand over many packets at once. The IP layer then collects those that it accepts as
long as they come from the same device, and shows each such sublist to the hooks; and it collects
those that have found their route as long as the route is the same, before it hands them on. The
first packet of a sublist gives the others a hint: one with the same destination gets its route
without a lookup. The hint is a reference to a packet that is still in the sublist.

## Main definitions

* `Ip.ipListRcvFinish`, `Ip.ipSublistRcv`, `Ip.ipListRcv`.

## Main results

* `Ip.list_rcv_conserves`: every packet is given up once.
* `Ip.hint_outlives_use`: no hint is looked into after it was given up.

## References

* `linux/net/ipv4/ip_input.c`, lines 562–662.
-/

namespace ExKernel.Ip

open Batch

/-! ### The functions -/

/-- `ip_extract_route_hint`.

Source: `linux/net/ipv4/ip_input.c`, lines 572–579. -/
def ipExtractRouteHint (env : Env) (net : ℕ) (skb : Routed) (rtType : RtType) : Option Routed :=
  if env.hasCustomRules net = true ∨ rtType = .broadcast then none else some skb

/-- The loop of `ip_list_rcv_finish`; handing on a sublist is `ip_sublist_rcv_finish`.

Source: `linux/net/ipv4/ip_input.c`, lines 562–570 and 581–619. -/
def finishLoop (env : Env) (net : ℕ) : Loop IpSkb Routed Routed Dst Effect where
  look hint skb :=
    match env.l3mdevIpRcv skb with
    | none => ([.l3mdev skb.id], none)
    | some skb' => ipRcvFinishCore env net skb' skb.dev hint
  key r := r.rt
  mark r := ipExtractRouteHint env net r r.rt.rtType
  flush _ sublist := sublist.map .dstInput

/-- `ip_list_rcv_finish`. -/
def ipListRcvFinish (env : Env) (net : ℕ) (head : List IpSkb) : List Effect :=
  (finishLoop env net).run none none [] head

/-- What the hooks take out of a list (`NF_HOOK_LIST`). -/
def nfHookList (env : Env) (net : ℕ) (dev : NetDevice) (head : List IpSkb) : List Effect :=
  head.flatMap fun skb => if env.nfHook net dev skb = none then [.nfHook skb.id] else []

/-- `ip_sublist_rcv`.

Source: `linux/net/ipv4/ip_input.c`, lines 621–627. -/
def ipSublistRcv (env : Env) (dev : NetDevice) (net : ℕ) (head : List IpSkb) : List Effect :=
  nfHookList env net dev head ++ ipListRcvFinish env net (head.filterMap (env.nfHook net dev))

/-- The loop of `ip_list_rcv`. `ip_rcv_core` leaves `skb->dev` as it is, so it does not matter that
the source reads it before.

Source: `linux/net/ipv4/ip_input.c`, lines 630–662. -/
def rcvLoop (env : Env) : Loop Skb IpSkb Unit (NetDevice × ℕ) Effect where
  look _ skb := ipRcvCore env skb.dev.net skb
  key skb := (skb.dev, skb.dev.net)
  mark _ := none
  flush k sublist := ipSublistRcv env k.1 k.2 sublist

/-- `ip_list_rcv`. -/
def ipListRcv (env : Env) (head : List Skb) : List Effect :=
  (rcvLoop env).run none none [] head

/-! ### Every packet is given up once -/

/-- The packets that an effect gives up. -/
def Effect.released (e : Effect) : Multiset ℕ := (e.ended.toList : Multiset ℕ)

theorem sum_released (log : List Effect) :
    (log.map Effect.released).sum = (ended log : Multiset ℕ) := by
  induction log with
  | nil => rfl
  | cons e log ih =>
    rw [List.map_cons, List.sum_cons, ih, Effect.released]
    cases he : e.ended with
    | none =>
      have hlog : ended (e :: log) = ended log := List.filterMap_cons_none he
      rw [hlog]
      exact zero_add _
    | some id =>
      have hlog : ended (e :: log) = id :: ended log := List.filterMap_cons_some he
      rw [hlog]
      rfl

theorem sum_singleton_id {α : Type} (f : α → ℕ) (xs : List α) :
    (xs.map fun x => ({f x} : Multiset ℕ)).sum = (xs.map f : Multiset ℕ) := by
  induction xs with
  | nil => rfl
  | cons x xs ih =>
    rw [List.map_cons, List.sum_cons, ih]
    rfl

theorem ended_readHint (skb : IpSkb) (hint : Option Routed) : ended (readHint skb hint) = [] := by
  unfold readHint
  split
  · rfl
  · split_ifs <;> rfl

section Conservation

variable (env : Env) (net : ℕ)

/-- In either loop, a packet that is looked at is given up once or kept. -/
theorem ended_look_finish (hint : Option Routed) (skb : IpSkb) :
    (ended ((finishLoop env net).look hint skb).1 : Multiset ℕ) +
      (((finishLoop env net).look hint skb).2.map fun r => ({r.id} : Multiset ℕ)).getD 0 =
        {skb.id} := by
  simp only [finishLoop]
  split
  · rfl
  · next s hs =>
    have hid := env.id_l3mdev _ _ hs
    obtain ⟨log, hlog, -, ⟨hnone, hended⟩ | ⟨r, hsome, hended, hr⟩⟩ :=
      ipRcvFinishCore_cases env net s skb.dev hint
    · rw [hlog, hnone, ended_append, ended_readHint, hended, hid]
      rfl
    · rw [hlog, hsome, ended_append, ended_readHint, hended, ← hid, ← hr]
      rfl

/-- The packets of the current sublist and those of the list, in a run of the inner loop. -/
theorem ended_run_finish {cur : Option Dst} {hint : Option Routed} {batch : List Routed}
    (xs : List IpSkb) (hkey : ∀ r ∈ batch, cur = some r.rt) (hnone : cur = none → hint = none) :
    (ended ((finishLoop env net).run cur hint batch xs) : Multiset ℕ) =
      (batch.map fun r => r.id : Multiset ℕ) + (xs.map fun skb => skb.id : Multiset ℕ) := by
  have hsplits : (finishLoop env net).Splits Effect.released (fun r => {r.id}) fun _ => True := by
    intro k sublist _
    simp only [finishLoop, List.map_map]
    rfl
  rw [← sum_released, ← sum_singleton_id, ← sum_singleton_id]
  refine Loop.sum_run (I := fun _ _ => True) hsplits xs (fun cur hint _ _ skb _ => ?_)
    (fun r hr => ⟨hkey r hr, trivial⟩) (fun _ _ => trivial) hnone
  exact
    { total := by
        rw [sum_released]
        exact ended_look_finish env net hint skb
      comm := fun r => add_comm _ _
      kept := fun _ _ => trivial
      mark := fun _ _ _ => trivial }

theorem ended_nfHookList (dev : NetDevice) (head : List IpSkb) :
    (ended (nfHookList env net dev head) : Multiset ℕ) +
      ((head.filterMap (env.nfHook net dev)).map fun skb => skb.id : Multiset ℕ) =
        (head.map fun skb => skb.id : Multiset ℕ) := by
  induction head with
  | nil => rfl
  | cons skb head ih =>
    rw [nfHookList, List.flatMap_cons, ← nfHookList, ended_append, List.map_cons,
      ← Multiset.cons_coe, ← ih]
    cases hskb : env.nfHook net dev skb with
    | none =>
      rw [List.filterMap_cons_none hskb, if_pos rfl, ← Multiset.coe_add, add_assoc]
      exact Multiset.singleton_add _ _
    | some s =>
      rw [List.filterMap_cons_some hskb, if_neg (by simp), List.map_cons, ← Multiset.cons_coe,
        env.id_nfHook _ _ _ _ hskb]
      exact Multiset.add_cons _ _ _

theorem ended_ipSublistRcv (dev : NetDevice) (head : List IpSkb) :
    (ended (ipSublistRcv env dev net head) : Multiset ℕ) =
      (head.map fun skb => skb.id : Multiset ℕ) := by
  rw [ipSublistRcv, ended_append, ← Multiset.coe_add, ipListRcvFinish,
    ended_run_finish env net _ (by simp) (fun _ => rfl), ← ended_nfHookList env net dev head]
  simp

/-- The packets of the current sublist and those of the list, in a run of the outer loop. -/
theorem ended_run_rcv {cur : Option (NetDevice × ℕ)} {batch : List IpSkb} (xs : List Skb)
    (hkey : ∀ skb ∈ batch, cur = some (skb.dev, skb.dev.net)) :
    (ended ((rcvLoop env).run cur none batch xs) : Multiset ℕ) =
      (batch.map fun skb => skb.id : Multiset ℕ) + (xs.map Skb.id : Multiset ℕ) := by
  have hsplits : (rcvLoop env).Splits Effect.released (fun skb => {skb.id}) fun _ => True := by
    intro k sublist _
    rw [sum_released, sum_singleton_id]
    exact ended_ipSublistRcv env k.2 k.1 sublist
  rw [← sum_released, ← sum_singleton_id, ← sum_singleton_id]
  refine Loop.sum_run (I := fun _ _ => True) hsplits xs (fun cur hint _ _ skb _ => ?_)
    (fun skb hskb => ⟨hkey skb hskb, trivial⟩) (fun _ _ => trivial) fun _ => rfl
  refine ⟨?_, fun s => add_comm _ _, fun _ _ => trivial, fun _ _ _ => trivial⟩
  rw [sum_released]
  simp only [rcvLoop]
  rcases ipRcvCore_cases env skb.dev.net skb with
    ⟨log, hcore, hended, -⟩ | ⟨log, s, hcore, hended, -, haccepted⟩
  · rw [hcore, hended]
    rfl
  · have hid : s.id = skb.id := by rw [haccepted.rest_eq]
    rw [hcore, hended, ← hid]
    rfl

end Conservation

theorem ended_ipListRcv_perm (env : Env) (head : List Skb) :
    (ended (ipListRcv env head)).Perm (head.map Skb.id) := by
  have h := @ended_run_rcv env none [] head (by simp)
  rw [List.map_nil, Multiset.coe_nil, zero_add] at h
  exact Multiset.coe_eq_coe.mp h

/-- **Every packet is given up once.** Whatever the rest of the kernel does, each packet of a list
that comes in is freed, taken by a hook or by the handler of a master device, or handed on, and only
one of these happens to it and only once.

Source: `linux/net/ipv4/ip_input.c`, lines 314–662. -/
theorem list_rcv_conserves (env : Env) (head : List Skb) :
    (ended (ipListRcv env head)).Perm (head.map Skb.id) := by
  exact ended_ipListRcv_perm env head

/-! ### No hint is used after it was given up -/

/-- When a packet looks into a hint, both are given up only later. -/
def Outlives (log : List Effect) : Prop :=
  ∀ pre id hint post, log = pre ++ .readHint id hint :: post →
    id ∈ ended post ∧ hint ∈ ended post

theorem outlives_of_not_mem {log : List Effect} (h : ∀ id hint, .readHint id hint ∉ log) :
    Outlives log := by
  rintro pre id hint post rfl
  exact absurd (List.mem_append_right pre List.mem_cons_self) (h id hint)

theorem Early.outlives {log : List Effect} (h : Early log) : Outlives log :=
  outlives_of_not_mem fun id hint hmem => (h _ hmem).1 id hint rfl

theorem Outlives.append {log log' : List Effect} (h : Outlives log) (h' : Outlives log') :
    Outlives (log ++ log') := by
  intro pre id hint post heq
  rcases List.append_eq_append_iff.mp heq with ⟨mid, hpre, hlog'⟩ | ⟨mid, hlog, hpost⟩
  · exact h' mid id hint post hlog'
  · cases mid with
    | nil => exact h' [] id hint post hpost.symm
    | cons e mid =>
      rw [List.cons_append, List.cons.injEq] at hpost
      obtain ⟨rfl, rfl⟩ := hpost
      obtain ⟨hid, hhint⟩ := h pre id hint mid hlog
      rw [ended_append]
      exact ⟨List.mem_append_left _ hid, List.mem_append_left _ hhint⟩

theorem Outlives.cons {log : List Effect} (h : Outlives log) {id hint : ℕ} (hid : id ∈ ended log)
    (hhint : hint ∈ ended log) : Outlives (.readHint id hint :: log) := by
  intro pre id' hint' post heq
  cases pre with
  | nil =>
    cases heq
    exact ⟨hid, hhint⟩
  | cons e pre =>
    rw [List.cons_append, List.cons.injEq] at heq
    exact h pre id' hint' post heq.2

theorem outlives_dispatch_finish (env : Env) (net : ℕ) (cur : Option Dst) (batch : List Routed) :
    Outlives ((finishLoop env net).dispatch cur batch) := by
  refine outlives_of_not_mem fun id hint hmem => ?_
  unfold Loop.dispatch at hmem
  split at hmem
  · simp [finishLoop] at hmem
  · simp at hmem

/-- The inner loop, as long as its hint is in the current sublist. -/
theorem outlives_run_finish (env : Env) (net : ℕ) {cur : Option Dst} {hint : Option Routed}
    {batch : List Routed} (xs : List IpSkb) (hkey : ∀ r ∈ batch, cur = some r.rt)
    (hnone : cur = none → hint = none) (hhint : ∀ r ∈ hint, r ∈ batch) :
    Outlives ((finishLoop env net).run cur hint batch xs) := by
  induction xs generalizing cur hint batch with
  | nil => exact outlives_dispatch_finish env net cur batch
  | cons x xs ih =>
    -- What is given up from here on are the packets of the sublist and those of the list.
    have hended := ended_run_finish env net (x :: xs) hkey hnone
    obtain ⟨rest, hrun, hrest⟩ := (finishLoop env net).run_cons_cases cur hint batch x xs
    have houtlives : Outlives rest := by
      rcases hrest with ⟨-, rfl⟩ | ⟨y, -, ⟨hcur, rfl⟩ | ⟨-, rfl⟩⟩
      · exact ih hkey hnone hhint
      · refine ih ?_ hnone fun r hr => List.mem_append_left _ (hhint r hr)
        intro r hr
        rcases List.mem_append.mp hr with hr | hr
        · exact hkey r hr
        · rw [List.mem_singleton.mp hr]
          exact hcur
      · refine (outlives_dispatch_finish env net cur batch).append (ih ?_ nofun ?_)
        · intro r hr
          rw [List.mem_singleton.mp hr]
          rfl
        · intro r hr
          simp only [finishLoop, ipExtractRouteHint] at hr
          split_ifs at hr
          · cases hr
          · exact List.mem_singleton.mpr (Option.some.inj hr).symm
    rw [hrun] at hended ⊢
    clear hrun hrest
    simp only [finishLoop] at hended ⊢
    split at hended
    · exact (outlives_of_not_mem (by simp)).append houtlives
    · next s hs =>
      obtain ⟨log, hlog, hearly, -⟩ := ipRcvFinishCore_cases env net s x.dev hint
      rw [hlog, List.append_assoc, ended_append, ended_readHint, List.nil_append] at hended
      rw [hlog, List.append_assoc]
      have hmem : ∀ id, id ∈ ended (log ++ rest) ↔
          id ∈ batch.map (fun r => r.id) ∨ id ∈ (x :: xs).map fun skb => skb.id := by
        intro id
        rw [← Multiset.mem_coe, hended, Multiset.mem_add, Multiset.mem_coe, Multiset.mem_coe]
      have hlater := hearly.outlives.append houtlives
      unfold readHint
      split
      · exact hlater
      · next h =>
        split_ifs
        · refine hlater.cons ((hmem _).mpr (.inr ?_)) ((hmem _).mpr (.inl ?_))
          · rw [env.id_l3mdev _ _ hs]
            exact List.mem_cons_self
          · exact List.mem_map_of_mem (hhint h rfl)
        · exact hlater

theorem outlives_ipListRcv (env : Env) (head : List Skb) : Outlives (ipListRcv env head) := by
  refine (rcvLoop env).run_of_append (outlives_of_not_mem (by simp)) (fun a b ha hb => ha.append hb)
    (fun k sublist => ?_) none none [] head fun hint skb _ => ?_
  · refine Outlives.append (outlives_of_not_mem fun id hint hmem => ?_)
      (outlives_run_finish env k.2 _ (by simp) (fun _ => rfl) nofun)
    obtain ⟨skb, -, hmem⟩ := List.mem_flatMap.mp hmem
    split_ifs at hmem
    · simp at hmem
    · cases hmem
  · simp only [rcvLoop]
    rcases ipRcvCore_cases env skb.dev.net skb with
      ⟨log, hcore, -, hearly⟩ | ⟨log, s, hcore, -, hearly, -⟩
    · rw [hcore]
      exact hearly.outlives
    · rw [hcore]
      exact hearly.outlives

/-- **No hint is used after it was given up.** Whatever the rest of the kernel does, when a packet
of a list that comes in is matched against the hint of another one, neither of the two has been
freed, taken away or handed on before.

Source: `linux/net/ipv4/ip_input.c`, lines 305–328 and 572–662. -/
theorem hint_outlives_use (env : Env) (head : List Skb) (hnodup : (head.map Skb.id).Nodup)
    (pre post : List Effect) (id hint : ℕ)
    (h : ipListRcv env head = pre ++ .readHint id hint :: post) :
    id ∉ ended pre ∧ hint ∉ ended pre := by
  obtain ⟨hid, hhint⟩ := outlives_ipListRcv env head pre id hint post h
  have hended : (ended (ipListRcv env head)).Nodup :=
    (ended_ipListRcv_perm env head).nodup_iff.mpr hnodup
  have hsplit : ended (ipListRcv env head) = ended pre ++ ended post := by
    rw [h, ended_append]
    rfl
  rw [hsplit] at hended
  have hdisjoint := List.disjoint_of_nodup_append hended
  exact ⟨fun hmem => hdisjoint hmem hid, fun hmem => hdisjoint hmem hhint⟩

/-- Of two packets of the host to itself, the second one looks into the first, and both are handed
on behind. -/
theorem loopback_hint_alive :
    let log := ipListRcv (Env.still ⟨0, .toLocal, false⟩) [loopback 0, loopback 1]
    1 ∉ ended (log.take 4) ∧ 0 ∉ ended (log.take 4) :=
  hint_outlives_use (Env.still ⟨0, .toLocal, false⟩) [loopback 0, loopback 1] (by decide) _
    ((ipListRcv (Env.still ⟨0, .toLocal, false⟩) [loopback 0, loopback 1]).drop 5) 1 0 (by decide)

end ExKernel.Ip
