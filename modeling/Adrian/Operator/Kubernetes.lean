import Adrian.Lib.JsonCodec
import Adrian.Lib.Table

/-!
# The Kubernetes API, as far as the operator uses it

The types are those of the API with the fields that the operator writes; it reads none besides.

The API refuses to create an object under a name that is taken, and a patch is a JSON merge patch of
the document.
-/

namespace Operator

open JsonCodec JsonRecord

/-! ### Types -/

inductive IntOrString where
  | int (n : Int32)
  | string (s : String)
deriving DecidableEq

structure ObjectMeta where
  name : Option String
  nameSpace : Option String
  labels : Option (List (String × String))
deriving DecidableEq

structure LabelSelector where
  matchLabels : Option (List (String × String))
deriving DecidableEq

structure PodSecurityContext where
  runAsUser : Option Int64
  runAsGroup : Option Int64
  fsGroup : Option Int64
deriving DecidableEq

structure ContainerPort where
  name : Option String
  containerPort : Int32
deriving DecidableEq

structure EnvVar where
  name : String
  value : Option String
deriving DecidableEq

structure VolumeMount where
  name : String
  mountPath : String
deriving DecidableEq

structure TcpSocketAction where
  port : IntOrString
deriving DecidableEq

structure Probe where
  tcpSocket : Option TcpSocketAction
  initialDelaySeconds : Option Int32
  periodSeconds : Option Int32
  failureThreshold : Option Int32
deriving DecidableEq

structure Container where
  name : String
  image : Option String
  ports : Option (List ContainerPort)
  env : Option (List EnvVar)
  volumeMounts : Option (List VolumeMount)
  livenessProbe : Option Probe
  readinessProbe : Option Probe
  startupProbe : Option Probe
deriving DecidableEq

structure PodSpec where
  securityContext : Option PodSecurityContext
  containers : List Container
deriving DecidableEq

structure PodTemplateSpec where
  metadata : Option ObjectMeta
  spec : Option PodSpec
deriving DecidableEq

structure VolumeResourceRequirements where
  requests : Option (List (String × String))
deriving DecidableEq

structure PersistentVolumeClaimSpec where
  accessModes : Option (List String)
  resources : Option VolumeResourceRequirements
deriving DecidableEq

structure PersistentVolumeClaim where
  metadata : ObjectMeta
  spec : Option PersistentVolumeClaimSpec
deriving DecidableEq

structure StatefulSetSpec where
  replicas : Option Int32
  serviceName : String
  selector : LabelSelector
  template : PodTemplateSpec
  volumeClaimTemplates : Option (List PersistentVolumeClaim)
deriving DecidableEq

structure StatefulSet where
  metadata : ObjectMeta
  spec : Option StatefulSetSpec
deriving DecidableEq

/-! ### Conversions -/

def readIntOrString : Json → Option IntOrString
  | .str s => some (.string s)
  | json => (readInt32 json).map .int

def writeIntOrString : IntOrString → Json
  | .int n => .num n.toInt
  | .string s => .str s

theorem readIntOrString_write (v : IntOrString) :
  readIntOrString (writeIntOrString v) = some v
  := by
  cases v with
  | int n =>
    change (readInt32 (.num n.toInt)).map IntOrString.int = _
    rw [readInt32_toInt, Option.map_some]
  | string s => rfl

def IntOrString.codec : JsonCodec IntOrString :=
  whole (.int 0) writeIntOrString readIntOrString (fun v => by cases v <;> trivial)
    readIntOrString_write

def ObjectMeta.codec : JsonCodec ObjectMeta :=
  (((optional "name" string).and ((optional "namespace" string).and (optional "labels" map))).equiv
    ⟨fun p => ⟨p.1, p.2.1, p.2.2⟩, fun m => (m.name, m.nameSpace, m.labels),
      fun _ => rfl, fun _ => rfl⟩).codec (by decide)

def LabelSelector.codec : JsonCodec LabelSelector :=
  ((optional "matchLabels" map).equiv
    ⟨fun p => ⟨p⟩, fun l => l.matchLabels, fun _ => rfl, fun _ => rfl⟩).codec (by decide)

def PodSecurityContext.codec : JsonCodec PodSecurityContext :=
  (((optional "runAsUser" int64).and
    ((optional "runAsGroup" int64).and (optional "fsGroup" int64))).equiv
    ⟨fun p => ⟨p.1, p.2.1, p.2.2⟩, fun c => (c.runAsUser, c.runAsGroup, c.fsGroup),
      fun _ => rfl, fun _ => rfl⟩).codec (by decide)

def ContainerPort.codec : JsonCodec ContainerPort :=
  (((optional "name" string).and (field "containerPort" int32)).equiv
    ⟨fun p => ⟨p.1, p.2⟩, fun c => (c.name, c.containerPort), fun _ => rfl, fun _ => rfl⟩).codec
    (by decide)

def EnvVar.codec : JsonCodec EnvVar :=
  (((field "name" string).and (optional "value" string)).equiv
    ⟨fun p => ⟨p.1, p.2⟩, fun e => (e.name, e.value), fun _ => rfl, fun _ => rfl⟩).codec (by decide)

def VolumeMount.codec : JsonCodec VolumeMount :=
  (((field "name" string).and (field "mountPath" string)).equiv
    ⟨fun p => ⟨p.1, p.2⟩, fun m => (m.name, m.mountPath), fun _ => rfl, fun _ => rfl⟩).codec
    (by decide)

def TcpSocketAction.codec : JsonCodec TcpSocketAction :=
  ((field "port" IntOrString.codec).equiv
    ⟨fun p => ⟨p⟩, fun a => a.port, fun _ => rfl, fun _ => rfl⟩).codec (by decide)

def Probe.codec : JsonCodec Probe :=
  (((optional "tcpSocket" TcpSocketAction.codec).and
    ((optional "initialDelaySeconds" int32).and
      ((optional "periodSeconds" int32).and (optional "failureThreshold" int32)))).equiv
    ⟨fun p => ⟨p.1, p.2.1, p.2.2.1, p.2.2.2⟩,
      fun p => (p.tcpSocket, p.initialDelaySeconds, p.periodSeconds, p.failureThreshold),
      fun _ => rfl, fun _ => rfl⟩).codec (by decide)

def Container.codec : JsonCodec Container :=
  (((field "name" string).and
    ((optional "image" string).and
      ((optional "ports" (list ContainerPort.codec)).and
        ((optional "env" (list EnvVar.codec)).and
          ((optional "volumeMounts" (list VolumeMount.codec)).and
            ((optional "livenessProbe" Probe.codec).and
              ((optional "readinessProbe" Probe.codec).and
                (optional "startupProbe" Probe.codec)))))))).equiv
    ⟨fun p => ⟨p.1, p.2.1, p.2.2.1, p.2.2.2.1, p.2.2.2.2.1, p.2.2.2.2.2.1, p.2.2.2.2.2.2.1,
        p.2.2.2.2.2.2.2⟩,
      fun c => (c.name, c.image, c.ports, c.env, c.volumeMounts, c.livenessProbe,
        c.readinessProbe, c.startupProbe),
      fun _ => rfl, fun _ => rfl⟩).codec (by decide)

def PodSpec.codec : JsonCodec PodSpec :=
  (((optional "securityContext" PodSecurityContext.codec).and
    (field "containers" (list Container.codec))).equiv
    ⟨fun p => ⟨p.1, p.2⟩, fun s => (s.securityContext, s.containers),
      fun _ => rfl, fun _ => rfl⟩).codec (by decide)

def PodTemplateSpec.codec : JsonCodec PodTemplateSpec :=
  (((optional "metadata" ObjectMeta.codec).and (optional "spec" PodSpec.codec)).equiv
    ⟨fun p => ⟨p.1, p.2⟩, fun t => (t.metadata, t.spec), fun _ => rfl, fun _ => rfl⟩).codec
    (by decide)

def VolumeResourceRequirements.codec : JsonCodec VolumeResourceRequirements :=
  ((optional "requests" map).equiv
    ⟨fun p => ⟨p⟩, fun r => r.requests, fun _ => rfl, fun _ => rfl⟩).codec (by decide)

def PersistentVolumeClaimSpec.codec : JsonCodec PersistentVolumeClaimSpec :=
  (((optional "accessModes" (list string)).and
    (optional "resources" VolumeResourceRequirements.codec)).equiv
    ⟨fun p => ⟨p.1, p.2⟩, fun s => (s.accessModes, s.resources), fun _ => rfl, fun _ => rfl⟩).codec
    (by decide)

def PersistentVolumeClaim.codec : JsonCodec PersistentVolumeClaim :=
  (((constant "apiVersion" "v1").and
    ((constant "kind" "PersistentVolumeClaim").and
      ((field "metadata" ObjectMeta.codec).and
        (optional "spec" PersistentVolumeClaimSpec.codec)))).equiv
    ⟨fun p => ⟨p.2.2.1, p.2.2.2⟩, fun c => ((), (), c.metadata, c.spec),
      fun _ => rfl, fun _ => rfl⟩).codec (by decide)

def StatefulSetSpec.codec : JsonCodec StatefulSetSpec :=
  (((optional "replicas" int32).and
    ((field "serviceName" string).and
      ((field "selector" LabelSelector.codec).and
        ((field "template" PodTemplateSpec.codec).and
          (optional "volumeClaimTemplates" (list PersistentVolumeClaim.codec)))))).equiv
    ⟨fun p => ⟨p.1, p.2.1, p.2.2.1, p.2.2.2.1, p.2.2.2.2⟩,
      fun s => (s.replicas, s.serviceName, s.selector, s.template, s.volumeClaimTemplates),
      fun _ => rfl, fun _ => rfl⟩).codec (by decide)

def StatefulSet.codec : JsonCodec StatefulSet :=
  (((constant "apiVersion" "apps/v1").and
    ((constant "kind" "StatefulSet").and
      ((field "metadata" ObjectMeta.codec).and (optional "spec" StatefulSetSpec.codec)))).equiv
    ⟨fun p => ⟨p.2.2.1, p.2.2.2⟩, fun s => ((), (), s.metadata, s.spec),
      fun _ => rfl, fun _ => rfl⟩).codec (by decide)

/-! ### The API -/

inductive KubeError where
  | alreadyExists
  | notFound
  | invalid
  | conversion
deriving DecidableEq

/-- The live objects, by namespace and name. -/
abbrev Cluster : Type :=
  Table (String × String) Json

abbrev Kube (α : Type) : Type :=
  ExceptT KubeError (StateM Cluster) α

namespace Kube

def convert (json : Json) : Except KubeError StatefulSet :=
  match StatefulSet.codec.fromJson json with
  | some ss => .ok ss
  | none => .error .conversion

def getOpt (nameSpace name : String) : Kube (Option StatefulSet) :=
  fun cluster =>
    match cluster.lookup (nameSpace, name) with
    | none => (.ok none, cluster)
    | some json => ((convert json).map some, cluster)

def create (nameSpace : String) (ss : StatefulSet) : Kube StatefulSet :=
  fun cluster =>
    match ss.metadata.name with
    | none => (.error .invalid, cluster)
    | some name =>
      if (cluster.lookup (nameSpace, name)).isSome then
        (.error .alreadyExists, cluster)
      else
        let json := StatefulSet.codec.toJson ss
        (convert json, cluster.insert (nameSpace, name) json)

def patch (nameSpace name : String) (ss : StatefulSet) : Kube StatefulSet :=
  fun cluster =>
    match cluster.lookup (nameSpace, name) with
    | none => (.error .notFound, cluster)
    | some live =>
      let json := live.mergePatch (StatefulSet.codec.toJson ss)
      (convert json, cluster.insert (nameSpace, name) json)

def delete (nameSpace name : String) : Kube Unit :=
  fun cluster =>
    if (cluster.lookup (nameSpace, name)).isSome then
      (.ok (), cluster.erase (nameSpace, name))
    else
      (.error .notFound, cluster)

variable {nameSpace name : String} {ss live : StatefulSet} {json : Json} {cluster : Cluster}

theorem convert_of_fromJson (h : StatefulSet.codec.fromJson json = some ss) :
  convert json = .ok ss
  := by
  rw [convert, h]

theorem create_of_name (h : ss.metadata.name = some name) :
  create nameSpace ss cluster
    = if (cluster.lookup (nameSpace, name)).isSome then
        (.error .alreadyExists, cluster)
      else
        (.ok ss, cluster.insert (nameSpace, name) (StatefulSet.codec.toJson ss))
  := by
  simp only [create, h, convert_of_fromJson (StatefulSet.codec.fromJson_toJson ss)]

theorem patch_of_live (h : cluster.lookup (nameSpace, name) = some json)
    (hjson : StatefulSet.codec.fromJson json = some live) :
  patch nameSpace name ss cluster
    = (.ok (StatefulSet.codec.patched live ss),
      cluster.insert (nameSpace, name) (json.mergePatch (StatefulSet.codec.toJson ss)))
  := by
  simp only [patch, h, convert_of_fromJson (StatefulSet.codec.fromJson_mergePatch hjson ss)]

end Kube

end Operator
