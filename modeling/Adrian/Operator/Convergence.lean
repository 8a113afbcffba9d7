import Adrian.Operator.Reconcile
import Mathlib

/-!
# Convergence of domain controllers

A pass brings the StatefulSet of a domain controller in sync with it, whatever else is in the live
object.  Only a live object that lacks a field of the snapshot is out of reach: the operator takes
it for missing, tries to create it, and is refused, in this pass and in every later one.  A pass
touches no other object, so after a pass for each of them all domain controllers are in sync.
-/

namespace Operator

open JsonCodec StatefulSetSnapshot

def selectorLabels (dcName : String) : List (String × String) :=
  [("app.kubernetes.io/name", "adrian-dc"), ("adrian.io/domain-controller", dcName)]

def containerFor (spec : DomainControllerSpec) : Container where
  name := "adrian-dc"
  image := some spec.image
  ports := some [⟨some "ldap", 389⟩, ⟨some "ldaps", 636⟩, ⟨some "kerberos", 88⟩,
    ⟨some "kpasswd", 464⟩, ⟨some "dns", 53⟩, ⟨some "smb", 445⟩, ⟨some "metrics", 9100⟩]
  env := some [⟨"ADRIAN_DOMAIN_NAME", some spec.domainName⟩,
    ⟨"ADRIAN_NETBIOS_NAME", some spec.netbiosName⟩]
  volumeMounts := some [⟨"dit", "/var/lib/adrian/dit"⟩]
  livenessProbe := some ⟨some ⟨.string "ldap"⟩, some 30, some 10, some 6⟩
  readinessProbe := some ⟨some ⟨.string "kerberos"⟩, none, some 5, none⟩
  startupProbe := some ⟨some ⟨.string "ldap"⟩, none, some 10, some 30⟩

def statefulsetSpecFor (dc : DomainController) : StatefulSetSpec where
  replicas := some dc.spec.replicas
  serviceName := headlessService (dc.name.getD "")
  selector := ⟨some (selectorLabels (dc.name.getD ""))⟩
  template := ⟨some ⟨none, none, some (selectorLabels (dc.name.getD ""))⟩,
    some ⟨some ⟨some 10001, some 10001, some 10001⟩, [containerFor dc.spec]⟩⟩
  volumeClaimTemplates := some [⟨⟨none, none, none⟩,
    some ⟨some ["ReadWriteOnce"], some ⟨some [("storage", dc.spec.storageSize)]⟩⟩⟩]

def statefulsetFor (dc : DomainController) : StatefulSet where
  metadata := ⟨some (statefulsetName dc), some (namespaceOf dc),
    some [("app.kubernetes.io/name", "adrian-dc"),
      ("app.kubernetes.io/managed-by", "adrian-operator"),
      ("adrian.io/domain-controller", dc.name.getD "")]⟩
  spec := some (statefulsetSpecFor dc)

theorem fromJson_specJson (dc : DomainController) :
  StatefulSetSpec.codec.fromJson ((ssJson dc).field "spec") = some (statefulsetSpecFor dc)
  := by
  change Option.map _
      (Option.bind (int32.fromOptional (int32.toOptional (some dc.spec.replicas))) _) = _
  rw [int32.fromOptional_toOptional]
  rfl

theorem fromJson_ssJson (dc : DomainController) :
  StatefulSet.codec.fromJson (ssJson dc) = some (statefulsetFor dc)
  := by
  have hspec : StatefulSetSpec.codec.fromOptional ((ssJson dc).field "spec")
      = some (some (statefulsetSpecFor dc)) := by
    have hread : StatefulSetSpec.codec.fromOptional ((ssJson dc).field "spec")
        = (StatefulSetSpec.codec.fromJson ((ssJson dc).field "spec")).map some := rfl
    rw [hread, fromJson_specJson, Option.map_some]
  change Option.map _ (Option.map _ (Option.map _ (Option.map _
    (StatefulSetSpec.codec.fromOptional ((ssJson dc).field "spec"))))) = _
  simp only [hspec, Option.map_some]
  rfl

theorem name_statefulsetFor (dc : DomainController) :
  (statefulsetFor dc).metadata.name = some (statefulsetName dc)
  := rfl

theorem buildStatefulsetFor_eq (dc : DomainController) :
  buildStatefulsetFor dc = .ok (statefulsetFor dc)
  := by
  rw [buildStatefulsetFor, fromValue, fromJson_ssJson]

theorem fromStatefulset_for (dc : DomainController) :
  fromStatefulset (statefulsetFor dc) = some (fromSpec dc.spec)
  := rfl

theorem fromStatefulset_over (live : StatefulSet) (dc : DomainController) :
  fromStatefulset (StatefulSet.codec.patched live (statefulsetFor dc)) = some (fromSpec dc.spec)
  := rfl

/-! ### What a pass decides and does -/

def key (dc : DomainController) : String × String :=
  (namespaceOf dc, statefulsetName dc)

section

variable {dc : DomainController} {cluster : Cluster} {json : Json}

theorem kube_getOpt_absent (h : cluster.lookup (key dc) = none) :
  kube (Kube.getOpt (namespaceOf dc) (statefulsetName dc)) cluster = (.ok none, cluster)
  := by
  rw [key] at h
  simp only [kube, Kube.getOpt, h, Except.mapError]

theorem kube_getOpt_live (h : cluster.lookup (key dc) = some json) :
  kube (Kube.getOpt (namespaceOf dc) (statefulsetName dc)) cluster
    = (((Kube.convert json).map some).mapError .kube, cluster)
  := by
  rw [key] at h
  simp only [kube, Kube.getOpt, h]

theorem decision_absent (hdc : dc.deletionTimestamp = none)
    (h : cluster.lookup (key dc) = none) :
  decision dc cluster = (.ok .create, cluster)
  := by
  rw [decision, Reconciler.bind_of_ok (kube_getOpt_absent h), hdc]
  rfl

theorem decision_unreadable (h : cluster.lookup (key dc) = some json)
    (hjson : StatefulSet.codec.fromJson json = none) :
  decision dc cluster = (.error (.kube .conversion), cluster)
  := by
  have hget := kube_getOpt_live h
  rw [Kube.convert, hjson] at hget
  rw [decision, Reconciler.bind_of_error hget]

variable {ss : StatefulSet}

theorem decision_live (hdc : dc.deletionTimestamp = none) (h : cluster.lookup (key dc) = some json)
    (hjson : StatefulSet.codec.fromJson json = some ss) :
  decision dc cluster
    = (.ok (decideReconcileAction (fromStatefulset ss) dc.spec none), cluster)
  := by
  have hget := kube_getOpt_live h
  rw [Kube.convert, hjson] at hget
  rw [decision, Reconciler.bind_of_ok hget, hdc]
  rfl

def InSync (dc : DomainController) (cluster : Cluster) : Prop :=
  ∃ json ss, cluster.lookup (key dc) = some json
    ∧ StatefulSet.codec.fromJson json = some ss
    ∧ fromStatefulset ss = some (fromSpec dc.spec)

theorem decision_of_inSync (hdc : dc.deletionTimestamp = none) (h : InSync dc cluster) :
  decision dc cluster = (.ok .noOp, cluster)
  := by
  obtain ⟨json, ss, hlive, hjson, hsnapshot⟩ := h
  rw [decision_live hdc hlive hjson, hsnapshot, decideReconcileAction]
  simp

theorem reconcile_of_inSync (hdc : dc.deletionTimestamp = none) (h : InSync dc cluster) :
  reconcile dc cluster = (.ok .noOp, cluster)
  := by
  rw [reconcile, Reconciler.bind_of_ok (decision_of_inSync hdc h)]
  rfl

theorem build_eq (dc : DomainController) (cluster : Cluster) :
  ofExcept (buildStatefulsetFor dc) cluster = (.ok (statefulsetFor dc), cluster)
  := by
  rw [ofExcept, buildStatefulsetFor_eq]

theorem act_create_absent (h : cluster.lookup (key dc) = none) :
  act dc .create cluster
    = (.ok .created, cluster.insert (key dc) (StatefulSet.codec.toJson (statefulsetFor dc)))
  := by
  have hcreate : kube (Kube.create (namespaceOf dc) (statefulsetFor dc)) cluster
      = (.ok (statefulsetFor dc),
        cluster.insert (key dc) (StatefulSet.codec.toJson (statefulsetFor dc))) := by
    rw [key] at h
    rw [kube, Kube.create_of_name (name_statefulsetFor dc), h, key]
    rfl
  rw [act, Reconciler.bind_of_ok (build_eq dc cluster), Reconciler.bind_of_ok hcreate]
  rfl

theorem act_create_taken (h : cluster.lookup (key dc) = some json) :
  act dc .create cluster = (.error (.kube .alreadyExists), cluster)
  := by
  have hcreate : kube (Kube.create (namespaceOf dc) (statefulsetFor dc)) cluster
      = (.error (.kube .alreadyExists), cluster) := by
    rw [key] at h
    rw [kube, Kube.create_of_name (name_statefulsetFor dc), h]
    rfl
  rw [act, Reconciler.bind_of_ok (build_eq dc cluster), Reconciler.bind_of_error hcreate]

theorem act_update (h : cluster.lookup (key dc) = some json)
    (hjson : StatefulSet.codec.fromJson json = some ss) :
  act dc .update cluster
    = (.ok .updated, cluster.insert (key dc)
      (json.mergePatch (StatefulSet.codec.toJson (statefulsetFor dc))))
  := by
  have hpatch : kube (Kube.patch (namespaceOf dc) (statefulsetName dc) (statefulsetFor dc)) cluster
      = (.ok (StatefulSet.codec.patched ss (statefulsetFor dc)), cluster.insert (key dc)
        (json.mergePatch (StatefulSet.codec.toJson (statefulsetFor dc)))) := by
    rw [key] at h
    rw [kube, Kube.patch_of_live h hjson, key]
    rfl
  rw [act, Reconciler.bind_of_ok (build_eq dc cluster), Reconciler.bind_of_ok hpatch]
  rfl

/-! ### Objects that the operator can keep -/

def Container.HasEnv (self : Container) (name : String) : Prop :=
  ∃ before e after, self.env = some (before ++ e :: after) ∧ (∀ e' ∈ before, e'.name ≠ name)
    ∧ e.name = name ∧ e.value.isSome

def StatefulSetSpec.HasStorage (self : StatefulSetSpec) : Prop :=
  ∃ vc vcts s r reqs, self.volumeClaimTemplates = some (vc :: vcts) ∧ vc.spec = some s
    ∧ s.resources = some r ∧ r.requests = some reqs ∧ "storage" ∈ reqs.map Prod.fst

def StatefulSet.Complete (self : StatefulSet) : Prop :=
  ∃ spec pod container rest, self.spec = some spec ∧ spec.template.spec = some pod
    ∧ pod.containers = container :: rest ∧ container.image.isSome
    ∧ container.HasEnv "ADRIAN_DOMAIN_NAME" ∧ container.HasEnv "ADRIAN_NETBIOS_NAME"
    ∧ spec.HasStorage

theorem isSome_envValue {container : Container} {name : String} :
  (envValue (container.env.getD []) name).isSome ↔ container.HasEnv name
  := by
  constructor
  · intro h
    obtain ⟨value, h⟩ := Option.isSome_iff_exists.mp h
    obtain ⟨e, hfind, hvalue⟩ := Option.bind_eq_some_iff.mp h
    obtain ⟨hname, before, after, henv, hbefore⟩ := List.find?_eq_some_iff_append.mp hfind
    refine ⟨before, e, after, ?_, ?_, of_decide_eq_true hname, Option.isSome_of_eq_some hvalue⟩
    · cases hc : container.env with
      | none =>
        rw [hc] at henv
        cases before with
        | nil => cases henv
        | cons e' before => cases henv
      | some env =>
        rw [hc] at henv
        rw [← henv]
        rfl
    · intro e' he'
      simpa using hbefore e' he'
  · rintro ⟨before, e, after, henv, hbefore, hname, hvalue⟩
    have hfind : (before ++ e :: after).find? (fun e => e.name = name) = some e := by
      apply List.find?_eq_some_iff_append.mpr
      refine ⟨decide_eq_true hname, before, after, rfl, ?_⟩
      intro e' he'
      simpa using hbefore e' he'
    rw [henv, envValue, Option.getD_some, hfind, Option.bind_some]
    apply hvalue

theorem isSome_storageRequest {spec : StatefulSetSpec} :
  (storageRequest spec).isSome ↔ spec.HasStorage
  := by
  have hlookup (reqs : List (String × String)) :
      (reqs.lookup "storage").isSome ↔ "storage" ∈ reqs.map Prod.fst := by
    rw [List.lookup_isSome_iff, List.mem_map]
    simp only [beq_iff_eq]
    simp only [eq_comm]
  constructor
  · intro h
    obtain ⟨size, h⟩ := Option.isSome_iff_exists.mp h
    obtain ⟨vcts, hvcts, h⟩ := Option.bind_eq_some_iff.mp h
    obtain ⟨vc, hvc, h⟩ := Option.bind_eq_some_iff.mp h
    obtain ⟨s, hs, h⟩ := Option.bind_eq_some_iff.mp h
    obtain ⟨r, hr, h⟩ := Option.bind_eq_some_iff.mp h
    obtain ⟨reqs, hreqs, h⟩ := Option.bind_eq_some_iff.mp h
    obtain ⟨rest, hrest⟩ := List.head?_eq_some_iff.mp hvc
    exact ⟨vc, rest, s, r, reqs, hrest ▸ hvcts, hs, hr, hreqs,
      (hlookup reqs).mp (Option.isSome_of_eq_some h)⟩
  · rintro ⟨vc, vcts, s, r, reqs, hvcts, hs, hr, hreqs, hmem⟩
    simp only [storageRequest, hvcts, hs, hr, hreqs, List.head?_cons, Option.bind_eq_bind,
      Option.bind_some]
    apply (hlookup reqs).mpr hmem

theorem isSome_fromStatefulset :
  (fromStatefulset ss).isSome ↔ ss.Complete
  := by
  rw [Option.isSome_iff_exists]
  constructor
  · rintro ⟨snapshot, h⟩
    obtain ⟨spec, hspec, h⟩ := Option.bind_eq_some_iff.mp h
    obtain ⟨pod, hpod, h⟩ := Option.bind_eq_some_iff.mp h
    obtain ⟨container, hcontainer, h⟩ := Option.bind_eq_some_iff.mp h
    obtain ⟨image, himage, h⟩ := Option.bind_eq_some_iff.mp h
    obtain ⟨domainName, hdomain, h⟩ := Option.bind_eq_some_iff.mp h
    obtain ⟨netbiosName, hnetbios, h⟩ := Option.bind_eq_some_iff.mp h
    obtain ⟨storageSize, hstorage, -⟩ := Option.bind_eq_some_iff.mp h
    obtain ⟨rest, hrest⟩ := List.head?_eq_some_iff.mp hcontainer
    refine ⟨spec, pod, container, rest, hspec, hpod, hrest, Option.isSome_of_eq_some himage,
      isSome_envValue.mp (Option.isSome_of_eq_some hdomain),
      isSome_envValue.mp (Option.isSome_of_eq_some hnetbios),
      isSome_storageRequest.mp (Option.isSome_of_eq_some hstorage)⟩
  · rintro ⟨spec, pod, container, rest, hspec, hpod, hrest, himage, hdomain, hnetbios, hstorage⟩
    obtain ⟨image, himage⟩ := Option.isSome_iff_exists.mp himage
    obtain ⟨domainName, hdomain⟩ := Option.isSome_iff_exists.mp (isSome_envValue.mpr hdomain)
    obtain ⟨netbiosName, hnetbios⟩ := Option.isSome_iff_exists.mp (isSome_envValue.mpr hnetbios)
    obtain ⟨storageSize, hstorage⟩ :=
      Option.isSome_iff_exists.mp (isSome_storageRequest.mpr hstorage)
    use ⟨spec.replicas.getD 0, image, storageSize, domainName, netbiosName⟩
    simp only [fromStatefulset, hspec, hpod, hrest, himage, hdomain, hnetbios, hstorage,
      List.head?_cons, Option.bind_eq_bind, Option.bind_some]

/-- There is no live object, or one with all fields that the snapshot needs. -/
def Manageable (dc : DomainController) (cluster : Cluster) : Prop :=
  ∀ json, cluster.lookup (key dc) = some json →
    ∃ ss, StatefulSet.codec.fromJson json = some ss ∧ ss.Complete

def Converges (dc : DomainController) (cluster : Cluster) : Prop :=
  ∃ result cluster', reconcile dc cluster = (.ok result, cluster')
    ∧ (decision dc cluster').1 = .ok .noOp

theorem inSync_created (dc : DomainController) (cluster : Cluster) :
  InSync dc (cluster.insert (key dc) (StatefulSet.codec.toJson (statefulsetFor dc)))
  := ⟨_, _, AList.lookup_insert cluster, StatefulSet.codec.fromJson_toJson _,
    fromStatefulset_for dc⟩

theorem inSync_patched (h : StatefulSet.codec.fromJson json = some ss) (dc : DomainController)
    (cluster : Cluster) :
  InSync dc (cluster.insert (key dc)
    (json.mergePatch (StatefulSet.codec.toJson (statefulsetFor dc))))
  := ⟨_, _, AList.lookup_insert cluster, StatefulSet.codec.fromJson_mergePatch h _,
    fromStatefulset_over ss dc⟩

theorem reconcile_of_manageable (hdc : dc.deletionTimestamp = none) (h : Manageable dc cluster) :
  ∃ result cluster', reconcile dc cluster = (.ok result, cluster') ∧ InSync dc cluster'
  := by
  cases hlive : cluster.lookup (key dc) with
  | none =>
    refine ⟨.created, _, ?_, inSync_created dc cluster⟩
    rw [reconcile, Reconciler.bind_of_ok (decision_absent hdc hlive), act_create_absent hlive]
  | some json =>
    obtain ⟨ss, hjson, hcomplete⟩ := h json hlive
    obtain ⟨snapshot, hsnapshot⟩ := Option.isSome_iff_exists.mp
      (isSome_fromStatefulset.mpr hcomplete)
    by_cases heq : snapshot = fromSpec dc.spec
    · have hsync : InSync dc cluster := ⟨json, ss, hlive, hjson, hsnapshot.trans (by rw [heq])⟩
      exact ⟨.noOp, cluster, reconcile_of_inSync hdc hsync, hsync⟩
    · have hdecision := decision_live hdc hlive hjson
      rw [hsnapshot, decideReconcileAction, Option.isSome_none, if_neg Bool.false_ne_true]
        at hdecision
      simp only [if_pos heq] at hdecision
      refine ⟨.updated, _, ?_, inSync_patched hjson dc cluster⟩
      rw [reconcile, Reconciler.bind_of_ok hdecision, act_update hlive hjson]

theorem reconcile_of_not_complete (hdc : dc.deletionTimestamp = none)
    (hlive : cluster.lookup (key dc) = some json)
    (hjson : StatefulSet.codec.fromJson json = some ss) (h : ¬ ss.Complete) :
  reconcile dc cluster = (.error (.kube .alreadyExists), cluster)
  := by
  have hnone : fromStatefulset ss = none := by
    rw [← isSome_fromStatefulset, Option.not_isSome_iff_eq_none] at h
    apply h
  have hdecision := decision_live hdc hlive hjson
  rw [hnone] at hdecision
  rw [reconcile, Reconciler.bind_of_ok hdecision]
  apply act_create_taken hlive

theorem reconcile_of_unreadable (hlive : cluster.lookup (key dc) = some json)
    (hjson : StatefulSet.codec.fromJson json = none) :
  reconcile dc cluster = (.error (.kube .conversion), cluster)
  := by
  rw [reconcile, Reconciler.bind_of_error (decision_unreadable hlive hjson)]

/-- A domain controller converges exactly if the operator can keep its object. -/
theorem converges_iff (hdc : dc.deletionTimestamp = none) :
  Converges dc cluster ↔ Manageable dc cluster
  := by
  constructor
  · rintro ⟨result, cluster', hpass, -⟩ json hlive
    cases hjson : StatefulSet.codec.fromJson json with
    | none =>
      rw [reconcile_of_unreadable hlive hjson] at hpass
      cases hpass
    | some ss =>
      use ss, rfl
      by_contra hcomplete
      rw [reconcile_of_not_complete hdc hlive hjson hcomplete] at hpass
      cases hpass
  · intro h
    obtain ⟨result, cluster', hpass, hsync⟩ := reconcile_of_manageable hdc h
    use result, cluster', hpass
    rw [decision_of_inSync hdc hsync]

end

namespace Sample

def dc : DomainController :=
  ⟨some "dc1", some "ad", none, ⟨3, "adrian/dc:2", "50Gi", "adrian.dev", "ADRIAN"⟩⟩

def outdated : Cluster :=
  AList.singleton ("ad", "adrian-dc-dc1") (StatefulSet.codec.toJson
    (statefulsetFor { dc with spec := ⟨1, "adrian/dc:1", "20Gi", "adrian.dev", "ADRIAN"⟩ }))

def second : DomainController :=
  ⟨some "dc2", some "ad", none, ⟨1, "adrian/dc:2", "20Gi", "adrian.dev", "ADRIAN"⟩⟩

/-- A StatefulSet that somebody else made, without the variables. -/
def foreign : Cluster :=
  AList.singleton ("ad", "adrian-dc-dc1") (.obj [
    ("metadata", .obj [("name", .str "adrian-dc-dc1"), ("namespace", .str "ad")]),
    ("spec", .obj [("replicas", .num 3),
      ("template", .obj [("spec", .obj [
        ("containers", .arr [.obj [("name", .str "dc"), ("image", .str "adrian/dc:2")]])])])])])

end Sample

/-- An object that has drifted in three fields. -/
theorem converges_outdated :
  Converges Sample.dc Sample.outdated
  := by
  apply (converges_iff rfl).mpr
  intro json hjson
  obtain rfl := Option.some.inj hjson
  exact ⟨_, StatefulSet.codec.fromJson_toJson _, isSome_fromStatefulset.mp rfl⟩

/-- An object that lacks what the snapshot needs is in the way of every pass. -/
theorem foreign_never_converges :
  reconcile Sample.dc Sample.foreign = (.error (.kube .alreadyExists), Sample.foreign)
    ∧ ¬ Converges Sample.dc Sample.foreign
  := by
  have hpass : reconcile Sample.dc Sample.foreign
      = (.error (.kube .alreadyExists), Sample.foreign) := by
    apply reconcile_of_not_complete rfl rfl rfl
    rw [← isSome_fromStatefulset]
    exact Bool.false_ne_true
  use hpass
  rintro ⟨result, cluster', hok, -⟩
  rw [hpass] at hok
  cases hok

/-! ### Many domain controllers -/

variable {dc : DomainController} {cluster : Cluster}

def Keeps {α : Type} (k : String × String) (x : Reconciler α) : Prop :=
  ∀ cluster, (x cluster).2.lookup k = cluster.lookup k

namespace Keeps

variable {α β : Type} {k : String × String}

theorem pure (a : α) :
  Keeps k (Pure.pure a)
  := fun _ => rfl

theorem bind {x : Reconciler α} {f : α → Reconciler β} (hx : Keeps k x) (hf : ∀ a, Keeps k (f a)) :
  Keeps k (x >>= f)
  := by
  intro cluster
  have hfirst := hx cluster
  obtain ⟨result, cluster', hrun⟩ : ∃ r c, x cluster = (r, c) := ⟨_, _, rfl⟩
  rw [hrun] at hfirst
  cases result with
  | ok a => rw [Reconciler.bind_of_ok hrun, hf a, hfirst]
  | error e => rw [Reconciler.bind_of_error hrun, hfirst]

theorem ofExcept (x : Except OperatorError α) :
  Keeps k (Operator.ofExcept x)
  := fun _ => rfl

theorem getOpt (nameSpace name : String) :
  Keeps k (kube (Kube.getOpt nameSpace name))
  := by
  intro cluster
  rw [kube, Kube.getOpt]
  cases cluster.lookup (nameSpace, name) with
  | none => rfl
  | some json => rfl

variable {nameSpace name : String}

theorem create {ss : StatefulSet} (hname : ss.metadata.name = some name)
    (h : k ≠ (nameSpace, name)) :
  Keeps k (kube (Kube.create nameSpace ss))
  := by
  intro cluster
  rw [kube, Kube.create_of_name hname]
  split_ifs with hlive
  · rfl
  · apply AList.lookup_insert_ne h

theorem patch (ss : StatefulSet) (h : k ≠ (nameSpace, name)) :
  Keeps k (kube (Kube.patch nameSpace name ss))
  := by
  intro cluster
  rw [kube, Kube.patch]
  cases cluster.lookup (nameSpace, name) with
  | none => rfl
  | some json => apply AList.lookup_insert_ne h

theorem delete (h : k ≠ (nameSpace, name)) :
  Keeps k (notFoundToNone (Kube.delete nameSpace name))
  := by
  intro cluster
  rw [notFoundToNone, Kube.delete]
  cases cluster.lookup (nameSpace, name) with
  | none => rfl
  | some json => apply AList.lookup_erase_ne h

end Keeps

theorem keeps_act {k : String × String} (h : k ≠ key dc) (action : ReconcileAction) :
  Keeps k (act dc action)
  := by
  cases action with
  | create =>
    intro cluster
    rw [act, Reconciler.bind_of_ok (build_eq dc cluster)]
    apply (Keeps.create (name_statefulsetFor dc) h).bind fun _ => Keeps.pure _
  | update =>
    apply (Keeps.ofExcept _).bind
    intro ss
    apply (Keeps.patch ss h).bind fun _ => Keeps.pure _
  | delete => apply (Keeps.delete h).bind fun _ => Keeps.pure _
  | noOp => apply Keeps.pure

theorem keeps_reconcile {k : String × String} (h : k ≠ key dc) :
  Keeps k (reconcile dc)
  := by
  apply Keeps.bind _ (keeps_act h)
  apply (Keeps.getOpt _ _).bind fun _ => Keeps.pure _

theorem InSync.manageable (h : InSync dc cluster) :
  Manageable dc cluster
  := by
  obtain ⟨json, ss, hlive, hjson, hsnapshot⟩ := h
  intro json' hlive'
  obtain rfl := Option.some.inj (hlive.symm.trans hlive')
  exact ⟨ss, hjson, isSome_fromStatefulset.mp (Option.isSome_of_eq_some hsnapshot)⟩

def passes (dcs : List DomainController) (cluster : Cluster) : Cluster :=
  dcs.foldl (fun cluster dc => (reconcile dc cluster).2) cluster

/-- After passes in any order, with repetitions, every domain controller that had one is in sync,
and so are those that were before. -/
theorem inSync_passes {dcs : List DomainController}
    (hkeys : ∀ dc ∈ dcs, ∀ dc' ∈ dcs, key dc = key dc' → dc = dc')
    (hdcs : ∀ dc ∈ dcs, dc.deletionTimestamp = none) (h : ∀ dc ∈ dcs, Manageable dc cluster)
    {order : List DomainController} (horder : ∀ dc ∈ order, dc ∈ dcs) :
  ∀ dc ∈ dcs, dc ∈ order ∨ InSync dc cluster → InSync dc (passes order cluster)
  := by
  induction order generalizing cluster with
  | nil =>
    rintro dc - (hdc | hsync)
    · cases hdc
    · apply hsync
  | cons first order ih =>
    obtain ⟨hfirst, horder⟩ := List.forall_mem_cons.mp horder
    obtain ⟨result, cluster', hpass, hsynced⟩ :=
      reconcile_of_manageable (hdcs first hfirst) (h first hfirst)
    have hcluster : passes (first :: order) cluster = passes order cluster' := by
      rw [passes, List.foldl_cons, hpass]
      rfl
    -- the pass leaves the objects of the others, and so what is known of them
    have hother : ∀ dc ∈ dcs, dc ≠ first →
        cluster'.lookup (key dc) = cluster.lookup (key dc) := by
      intro dc hdc hne
      have hkeep := keeps_reconcile (fun hk => hne (hkeys dc hdc first hfirst hk)) cluster
      rw [hpass] at hkeep
      apply hkeep
    have hmanageable : ∀ dc ∈ dcs, Manageable dc cluster' := by
      intro dc hdc
      by_cases hne : dc = first
      · rw [hne]
        apply hsynced.manageable
      · intro json hjson
        rw [hother dc hdc hne] at hjson
        apply h dc hdc json hjson
    intro dc hdc hwhen
    rw [hcluster]
    apply ih hmanageable horder dc hdc
    by_cases hne : dc = first
    · right
      rw [hne]
      apply hsynced
    · obtain hmem | hsync := hwhen
      · left
        apply (List.mem_cons.mp hmem).resolve_left hne
      · right
        obtain ⟨json, ss, hlive, hrest⟩ := hsync
        use json, ss, (hother dc hdc hne).trans hlive

/-- Three passes over two domain controllers, of which one is outdated and one is new. -/
theorem inSync_passes_outdated :
  InSync Sample.dc (passes [Sample.dc, Sample.second, Sample.dc] Sample.outdated)
    ∧ InSync Sample.second (passes [Sample.dc, Sample.second, Sample.dc] Sample.outdated)
  := by
  have hkey : key Sample.dc ≠ key Sample.second := by decide
  have hkeys : ∀ dc ∈ [Sample.dc, Sample.second], ∀ dc' ∈ [Sample.dc, Sample.second],
      key dc = key dc' → dc = dc' := by
    simp [hkey, hkey.symm]
  have h : ∀ dc ∈ [Sample.dc, Sample.second], Manageable dc Sample.outdated := by
    simp only [List.forall_mem_cons, List.not_mem_nil, false_imp_iff, implies_true, and_true]
    refine ⟨fun json hjson => ?_, fun json hjson => ?_⟩
    · obtain rfl := Option.some.inj hjson
      exact ⟨_, StatefulSet.codec.fromJson_toJson _, isSome_fromStatefulset.mp rfl⟩
    · cases hjson
  have hsync := inSync_passes hkeys (by simp [Sample.dc, Sample.second]) h
    (show ∀ dc ∈ [Sample.dc, Sample.second, Sample.dc], dc ∈ [Sample.dc, Sample.second] by simp)
  exact ⟨hsync _ (by simp) (.inl (by simp)), hsync _ (by simp) (.inl (by simp))⟩

end Operator
