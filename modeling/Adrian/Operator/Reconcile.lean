import Adrian.Operator.Kubernetes

/-!
# Reconciling a domain controller

The operator keeps a StatefulSet for each `DomainController`.  It compares what it reads of the live
one, a snapshot of five fields, with what is desired, and creates, patches or deletes it.
-/

namespace Operator

structure DomainControllerSpec where
  replicas : Int32
  image : String
  storageSize : String
  domainName : String
  netbiosName : String
deriving DecidableEq

structure DomainController where
  name : Option String
  nameSpace : Option String
  deletionTimestamp : Option ℤ
  spec : DomainControllerSpec
deriving DecidableEq

inductive OperatorError where
  | kube (e : KubeError)
  | reconcile
deriving DecidableEq

inductive ReconcileResult where
  | created
  | updated
  | deleted
  | noOp
  | requeue
deriving DecidableEq

inductive ReconcileAction where
  | create
  | update
  | delete
  | noOp
deriving DecidableEq

structure StatefulSetSnapshot where
  replicas : Int32
  image : String
  storageSize : String
  domainName : String
  netbiosName : String
deriving DecidableEq

namespace StatefulSetSnapshot

def fromSpec (spec : DomainControllerSpec) : StatefulSetSnapshot :=
  ⟨spec.replicas, spec.image, spec.storageSize, spec.domainName, spec.netbiosName⟩

def envValue (env : List EnvVar) (name : String) : Option String :=
  (env.find? fun e => e.name = name).bind EnvVar.value

def storageRequest (spec : StatefulSetSpec) : Option String := do
  let vcts ← spec.volumeClaimTemplates
  let vc ← vcts.head?
  let s ← vc.spec
  let r ← s.resources
  let reqs ← r.requests
  reqs.lookup "storage"

def fromStatefulset (ss : StatefulSet) : Option StatefulSetSnapshot := do
  let spec ← ss.spec
  let replicas := spec.replicas.getD 0
  let pod ← spec.template.spec
  let container ← pod.containers.head?
  let image ← container.image
  let env := container.env.getD []
  let domainName ← envValue env "ADRIAN_DOMAIN_NAME"
  let netbiosName ← envValue env "ADRIAN_NETBIOS_NAME"
  let storageSize ← storageRequest spec
  some ⟨replicas, image, storageSize, domainName, netbiosName⟩

end StatefulSetSnapshot

open StatefulSetSnapshot

def decideReconcileAction (current : Option StatefulSetSnapshot) (desired : DomainControllerSpec)
    (deletionTimestamp : Option ℤ) : ReconcileAction :=
  if deletionTimestamp.isSome then
    .delete
  else
    match current with
    | none => .create
    | some current => if current ≠ fromSpec desired then .update else .noOp

/-! ### The desired StatefulSet -/

def statefulsetName (dc : DomainController) : String :=
  match dc.name with
  | some base => if base = "" then "adrian-dc" else "adrian-dc-" ++ base
  | none => "adrian-dc"

def namespaceOf (dc : DomainController) : String :=
  dc.nameSpace.getD "default"

def headlessService (dcName : String) : String :=
  if dcName = "" then "adrian-dc-headless" else "adrian-dc-" ++ dcName ++ "-headless"

def probeJson (port : String) (rest : List (String × Json)) : Json :=
  .obj (("tcpSocket", .obj [("port", .str port)]) :: rest)

def portJson (name : String) (port : ℤ) : Json :=
  .obj [("name", .str name), ("containerPort", .num port)]

def labelsJson (dcName : String) : List (String × Json) :=
  [("app.kubernetes.io/name", .str "adrian-dc"), ("adrian.io/domain-controller", .str dcName)]

def containerJson (spec : DomainControllerSpec) : Json :=
  .obj [("name", .str "adrian-dc"), ("image", .str spec.image),
    ("ports", .arr [portJson "ldap" 389, portJson "ldaps" 636, portJson "kerberos" 88,
      portJson "kpasswd" 464, portJson "dns" 53, portJson "smb" 445, portJson "metrics" 9100]),
    ("env", .arr [
      .obj [("name", .str "ADRIAN_DOMAIN_NAME"), ("value", .str spec.domainName)],
      .obj [("name", .str "ADRIAN_NETBIOS_NAME"), ("value", .str spec.netbiosName)]]),
    ("volumeMounts", .arr [
      .obj [("name", .str "dit"), ("mountPath", .str "/var/lib/adrian/dit")]]),
    ("livenessProbe", probeJson "ldap"
      [("initialDelaySeconds", .num 30), ("periodSeconds", .num 10), ("failureThreshold", .num 6)]),
    ("readinessProbe", probeJson "kerberos" [("periodSeconds", .num 5)]),
    ("startupProbe", probeJson "ldap" [("failureThreshold", .num 30), ("periodSeconds", .num 10)])]

def claimJson (spec : DomainControllerSpec) : Json :=
  .obj [("name", .str "dit"),
    ("spec", .obj [("accessModes", .arr [.str "ReadWriteOnce"]),
      ("resources", .obj [("requests", .obj [("storage", .str spec.storageSize)])])])]

def ssJson (dc : DomainController) : Json :=
  let dcName := dc.name.getD ""
  .obj [("apiVersion", .str "apps/v1"), ("kind", .str "StatefulSet"),
    ("metadata", .obj [("name", .str (statefulsetName dc)), ("namespace", .str (namespaceOf dc)),
      ("labels", .obj [("app.kubernetes.io/name", .str "adrian-dc"),
        ("app.kubernetes.io/managed-by", .str "adrian-operator"),
        ("adrian.io/domain-controller", .str dcName)])]),
    ("spec", .obj [("replicas", .num dc.spec.replicas.toInt),
      ("serviceName", .str (headlessService dcName)),
      ("selector", .obj [("matchLabels", .obj (labelsJson dcName))]),
      ("template", .obj [("metadata", .obj [("labels", .obj (labelsJson dcName))]),
        ("spec", .obj [
          ("securityContext", .obj [("runAsUser", .num 10001), ("runAsGroup", .num 10001),
            ("fsGroup", .num 10001)]),
          ("containers", .arr [containerJson dc.spec])])]),
      ("volumeClaimTemplates", .arr [claimJson dc.spec])])]

def fromValue (json : Json) : Except OperatorError StatefulSet :=
  match StatefulSet.codec.fromJson json with
  | some ss => .ok ss
  | none => .error .reconcile

def buildStatefulsetFor (dc : DomainController) : Except OperatorError StatefulSet :=
  fromValue (ssJson dc)

/-! ### Reconciling -/

abbrev Reconciler (α : Type) : Type :=
  ExceptT OperatorError (StateM Cluster) α

namespace Reconciler

variable {α β : Type} {x : Reconciler α} {f : α → Reconciler β} {cluster cluster' : Cluster}

theorem bind_of_ok {a : α} (h : x cluster = (.ok a, cluster')) :
  (x >>= f) cluster = f a cluster'
  := by
  change (match x cluster with | (r, c) => ExceptT.bindCont f r c) = _
  rw [h]
  rfl

theorem bind_of_error {e : OperatorError} (h : x cluster = (.error e, cluster')) :
  (x >>= f) cluster = (.error e, cluster')
  := by
  change (match x cluster with | (r, c) => ExceptT.bindCont f r c) = _
  rw [h]
  rfl

end Reconciler

def ofExcept {α : Type} (x : Except OperatorError α) : Reconciler α :=
  fun cluster => (x, cluster)

def kube {α : Type} (call : Kube α) : Reconciler α :=
  fun cluster => ((call cluster).1.mapError .kube, (call cluster).2)

def notFoundToNone {α : Type} (call : Kube α) : Reconciler (Option α) :=
  fun cluster =>
    match call cluster with
    | (.ok a, cluster') => (.ok (some a), cluster')
    | (.error .notFound, cluster') => (.ok none, cluster')
    | (.error e, cluster') => (.error (.kube e), cluster')

def decision (dc : DomainController) : Reconciler ReconcileAction := do
  let currentOpt ← kube (Kube.getOpt (namespaceOf dc) (statefulsetName dc))
  let currentSnapshot := currentOpt.bind fromStatefulset
  pure (decideReconcileAction currentSnapshot dc.spec dc.deletionTimestamp)

def act (dc : DomainController) : ReconcileAction → Reconciler ReconcileResult
  | .delete => do
    let _ ← notFoundToNone (Kube.delete (namespaceOf dc) (statefulsetName dc))
    pure .deleted
  | .create => do
    let ss ← ofExcept (buildStatefulsetFor dc)
    let _ ← kube (Kube.create (namespaceOf dc) ss)
    pure .created
  | .update => do
    let ss ← ofExcept (buildStatefulsetFor dc)
    let _ ← kube (Kube.patch (namespaceOf dc) (statefulsetName dc) ss)
    pure .updated
  | .noOp => pure .noOp

def reconcile (dc : DomainController) : Reconciler ReconcileResult := do
  let action ← decision dc
  act dc action

end Operator
