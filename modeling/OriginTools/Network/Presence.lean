import OriginTools.Network.Wire

/-!
# Presence subscriptions

The `PresenceRegistry` of `origin-network/src/relay_server.rs`: who watches whom, and
the channel each connected client is notified on.
-/

namespace OriginTools.Network

abbrev ConnId := ℕ

def maxSubscriptionsPerClient : ℕ := 64
def maxSubscribersPerTarget : ℕ := 256

structure PresenceRegistry where
  byTarget : Fingerprint → Option (List (Fingerprint × ConnId))
  byClient : Fingerprint → Option (Finset Fingerprint)
  senders : Fingerprint → Option ConnId

namespace PresenceRegistry

def empty : PresenceRegistry :=
  { byTarget := fun _ => none
    byClient := fun _ => none
    senders := fun _ => none }

def registerClient (reg : PresenceRegistry) (client : Fingerprint) (conn : ConnId) :
    PresenceRegistry :=
  { reg with senders := Function.update reg.senders client (some conn) }

def subscribe (reg : PresenceRegistry) (target client : Fingerprint) :
    Except NetworkError Unit × PresenceRegistry :=
  let clientTargets:=(reg.byClient client).getD ∅
  let reg:={ reg with byClient := Function.update reg.byClient client (some clientTargets) }
  if clientTargets.card≥maxSubscriptionsPerClient ∧ target∉clientTargets then
    (.error (.relayFull s!"subscription cap reached ({maxSubscriptionsPerClient})"),reg)
  else
    let subs:=(reg.byTarget target).getD []
    let reg:={ reg with byTarget := Function.update reg.byTarget target (some subs) }
    if subs.length≥maxSubscribersPerTarget ∧ client∉subs.map Prod.fst then
      (.error (.relayFull s!"subscriber cap reached for target ({maxSubscribersPerTarget})"),reg)
    else
      match reg.senders client with
      | none => (.error (.auth "presence subscribe before sender registration"),reg)
      | some tx =>
        (.ok (),{ reg with
            byClient := Function.update reg.byClient client (some (insert target clientTargets))
            byTarget := Function.update reg.byTarget target
              (some ((client,tx)::subs.filter (fun sub => sub.1≠client))) })

/-- Gives the connections notified; the subscribers whose channel is closed are pruned. -/
def notify (reg : PresenceRegistry) (alive : ConnId → Bool) (target : Fingerprint) :
    List ConnId × PresenceRegistry :=
  match reg.byTarget target with
  | none => ([],reg)
  | some subs =>
    let dead:=(subs.filter (fun sub => !alive sub.2)).map Prod.fst
    (((subs.filter (fun sub => alive sub.2)).map Prod.snd),{ reg with
        byTarget := Function.update reg.byTarget target (some (subs.filter (fun sub => sub.1∉dead)))
        byClient := fun client =>
          if client∈dead then (reg.byClient client).map (·.erase target)
          else reg.byClient client })

def removeClient (reg : PresenceRegistry) (client : Fingerprint) : PresenceRegistry :=
  let reg:={ reg with senders := Function.update reg.senders client none }
  match reg.byClient client with
  | none => reg
  | some targets =>
    { reg with
      byClient := Function.update reg.byClient client none
      byTarget := fun target =>
        if target∈targets then
          ((reg.byTarget target).map (fun subs => subs.filter (fun sub => sub.1≠client))).filter
            (fun subs => !subs.isEmpty)
        else reg.byTarget target }

def watchers (reg : PresenceRegistry) (target : Fingerprint) : List Fingerprint :=
  ((reg.byTarget target).getD []).map Prod.fst

def targets (reg : PresenceRegistry) (client : Fingerprint) : Finset Fingerprint :=
  (reg.byClient client).getD ∅

inductive PresenceOp where
  | register (client : Fingerprint) (conn : ConnId)
  | subscribe (target client : Fingerprint)
  | notify (target : Fingerprint) (alive : ConnId → Bool)
  | remove (client : Fingerprint)

def step (reg : PresenceRegistry) : PresenceOp → PresenceRegistry
  | .register client conn => reg.registerClient client conn
  | .subscribe target client => (reg.subscribe target client).2
  | .notify target alive => (reg.notify alive target).2
  | .remove client => reg.removeClient client

structure Consistent (reg : PresenceRegistry) : Prop where
  mirrored : ∀ target client,client∈reg.watchers target ↔ target∈reg.targets client
  fewTargets : ∀ client,(reg.targets client).card ≤ maxSubscriptionsPerClient
  fewWatchers : ∀ target,(reg.watchers target).length ≤ maxSubscribersPerTarget

open List
variable {reg reg' : PresenceRegistry} {target client : Fingerprint}

theorem Consistent.congr (h : reg.Consistent) (hw : reg'.watchers=reg.watchers)
    (ht : reg'.targets=reg.targets) : reg'.Consistent :=
  ⟨hw ▸ ht ▸ h.mirrored,ht ▸ h.fewTargets,hw ▸ h.fewWatchers⟩

theorem targets_update (f : Finset Fingerprint) :
    { reg with byClient := Function.update reg.byClient client (some f) }.targets=
      Function.update reg.targets client f := by
  funext c
  simp only [targets,Function.update_apply]
  split_ifs
  · rfl
  · rfl

theorem watchers_update (subs) :
    { reg with byTarget := Function.update reg.byTarget target (some subs) }.watchers=
      Function.update reg.watchers target (subs.map Prod.fst) := by
  funext t
  simp only [watchers,Function.update_apply]
  split_ifs
  · rfl
  · rfl

/-- A refused subscription leaves at most empty entries behind. -/
theorem subscribe_cases (reg : PresenceRegistry) (target client) :
    ((reg.subscribe target client).2.watchers=reg.watchers ∧
      (reg.subscribe target client).2.targets=reg.targets) ∨
    (client∉reg.watchers target → (reg.watchers target).length < maxSubscribersPerTarget) ∧
      (target∉reg.targets client → (reg.targets client).card < maxSubscriptionsPerClient) ∧
      (reg.subscribe target client).2.watchers=Function.update reg.watchers target
        (client::(reg.watchers target).filter (· ≠ client)) ∧
      (reg.subscribe target client).2.targets=
        Function.update reg.targets client (insert target (reg.targets client)) := by
  have hsame:=(targets_update (reg.targets client)).trans
    (Function.update_eq_self client reg.targets)
  have hsubs:=(watchers_update ((reg.byTarget target).getD [])).trans
    (Function.update_eq_self target reg.watchers)
  unfold subscribe
  dsimp only
  split_ifs with hclient htarget
  · exact .inl ⟨rfl,hsame⟩
  · exact .inl ⟨hsubs,hsame⟩
  rcases reg.senders client with _ | tx
  · exact .inl ⟨hsubs,hsame⟩
  right
  rw [not_and_or,not_le,not_not] at hclient htarget
  refine ⟨fun hout => htarget.resolve_right hout |>.trans_eq' ?_,hclient.resolve_right,?_,?_⟩
  · exact (length_map _).symm
  · funext t
    simp only [watchers,Function.update_apply,filter_map]
    split_ifs
    · rfl
    · rfl
  · funext c
    simp only [targets,Function.update_apply]
    split_ifs
    · rfl
    · rfl

theorem Consistent.subscribe (h : reg.Consistent) (target client) :
    (reg.subscribe target client).2.Consistent := by
  rcases reg.subscribe_cases target client with ⟨hw,ht⟩ | ⟨hroom,hfree,hw,ht⟩
  · exact h.congr hw ht
  refine ⟨?_,?_,?_⟩
  · intro t c
    have hold:=h.mirrored t c
    rw [hw,ht,Function.update_apply,Function.update_apply]
    split_ifs with heq hc hc
    · simp [heq,hc]
    · subst heq
      simpa [hc] using hold
    · subst hc
      simpa [heq] using hold
    · exact hold
  · intro c
    rw [ht,Function.update_apply]
    split_ifs with hc
    · by_cases hin : target∈reg.targets client
      · rw [Finset.insert_eq_of_mem hin]
        exact h.fewTargets client
      · rw [Finset.card_insert_of_notMem hin]
        exact hfree hin
    · exact h.fewTargets c
  · intro t
    rw [hw,Function.update_apply]
    split_ifs with heq
    · rw [length_cons]
      by_cases hin : client∈reg.watchers target
      · have hless : ((reg.watchers target).filter (· ≠ client)).length<
            (reg.watchers target).length :=
          length_filter_lt_length_iff_exists.mpr ⟨client,hin,by simp⟩
        exact hless.trans_le (h.fewWatchers target)
      · exact (Nat.succ_le_succ (length_filter_le _ _)).trans (hroom hin)
    · exact h.fewWatchers t

/-- Pairs leave both sides together. -/
theorem Consistent.drop (h : reg.Consistent) (gone : Fingerprint → Fingerprint → Bool)
    (hw : ∀ t,reg'.watchers t=(reg.watchers t).filter (gone t · = false))
    (ht : ∀ c,reg'.targets c=(reg.targets c).filter (gone · c=false)) : reg'.Consistent := by
  refine ⟨?_,?_,?_⟩
  · intro t c
    simp [hw,ht,h.mirrored]
  · intro c
    rw [ht]
    exact (Finset.card_filter_le _ _).trans (h.fewTargets c)
  · intro t
    rw [hw]
    exact (length_filter_le _ _).trans (h.fewWatchers t)

theorem Consistent.notify (h : reg.Consistent) (alive target) :
    (reg.notify alive target).2.Consistent := by
  unfold PresenceRegistry.notify
  rcases hsubs : reg.byTarget target with _ | subs
  · exact h
  dsimp only
  set dead := (subs.filter fun sub => !alive sub.2).map Prod.fst
  apply h.drop fun t c => t=target ∧ c∈dead
  · intro t
    simp only [watchers,Function.update_apply]
    split_ifs with ht
    · subst ht
      simp [hsubs,filter_map,Function.comp_def]
    · simp [ht]
  · intro c
    simp only [targets]
    split_ifs with hc
    · cases reg.byClient c with
      | none => rfl
      | some targets =>
        simp [hc,Finset.filter_ne']
    · simp [hc]

theorem Consistent.removeClient (h : reg.Consistent) (client) :
    (reg.removeClient client).Consistent := by
  have hother : ∀ t,t∉reg.targets client →
      (reg.watchers t).filter (· ≠ client)=reg.watchers t := by
    intro t ht
    rw [filter_eq_self]
    intro c hc
    simpa using ne_of_mem_of_not_mem hc (mt (h.mirrored t client).mp ht)
  have hempty : ∀ l : List (Fingerprint × ConnId),
      ((some l).filter fun subs => !subs.isEmpty).getD []=l := by
    intro l
    cases l with
    | nil | cons => rfl
  apply h.drop fun _ c => c=client
  · intro t
    simp only [decide_eq_false_iff_not]
    unfold PresenceRegistry.removeClient
    dsimp only
    rcases hclient : reg.byClient client with _ | targets
    · exact (hother t (by simp [PresenceRegistry.targets,hclient])).symm
    by_cases ht : t∈targets
    · simp only [watchers,ht,if_true]
      rcases reg.byTarget t with _ | subs
      · rfl
      · rw [Option.map_some,hempty,Option.getD_some,filter_map]
        rfl
    · rw [hother t (by simpa [PresenceRegistry.targets,hclient] using ht)]
      simp [watchers,ht]
  · intro c
    unfold PresenceRegistry.removeClient
    dsimp only
    rcases hclient : reg.byClient client with _ | targets
    · by_cases hc : c=client
      · simp [PresenceRegistry.targets,hc,hclient]
      · simp [PresenceRegistry.targets,hc]
    · by_cases hc : c=client
      · simp [PresenceRegistry.targets,hc]
      · simp [PresenceRegistry.targets,hc]

theorem removeClient_targets (reg : PresenceRegistry) (client) :
    (reg.removeClient client).targets client = ∅ := by
  unfold removeClient
  dsimp only
  split
  · rename_i h
    exact congrArg (·.getD ∅) h
  · simp [targets]

theorem Consistent.step (h : reg.Consistent) (op) : (reg.step op).Consistent := by
  cases op with
  | register client conn => exact h.congr rfl rfl
  | subscribe target client => exact h.subscribe target client
  | notify target alive => exact h.notify alive target
  | remove client => exact h.removeClient client

theorem Consistent.run (h : reg.Consistent) (ops : List PresenceOp) :
    (ops.foldl PresenceRegistry.step reg).Consistent := by
  induction ops generalizing reg with
  | nil => exact h
  | cons op ops ih => exact ih (h.step op)

theorem presence_stays_consistent (ops : List PresenceOp) :
    (ops.foldl step empty).Consistent ∧ ∀ client target,
      client∉((ops.foldl step empty).removeClient client).watchers target := by
  have hempty : empty.Consistent := ⟨by simp [watchers,targets,empty],by simp [targets,empty],
    by simp [watchers,empty]⟩
  have hrun:=hempty.run ops
  refine ⟨hrun,?_⟩
  intro client target
  rw [(hrun.removeClient client).mirrored,removeClient_targets]
  exact Finset.notMem_empty target

end PresenceRegistry
end OriginTools.Network
