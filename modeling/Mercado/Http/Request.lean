import Mathlib.Data.Finset.Insert
import Mathlib.Data.Finset.Lattice.Lemmas

/-! Requests to connectors. A request is changed by its setters or put together by a builder,
and both have the same fields. -/
namespace Mercado.Http

inductive Maskable where
  | masked (secret : String)
  | normal (value : String)
  deriving DecidableEq, Repr

abbrev Headers := Finset (String × Maskable)

inductive Method where
  | get | post | put | delete | patch
  deriving DecidableEq, Repr

def defaultRequestHeaders : Headers := {("via", .normal "HyperSwitch")}

structure Request (β : Type) where
  url : String
  headers : Headers
  method : Method
  certificate : Option String
  certificateKey : Option String
  body : Option β

variable {β : Type}

namespace Request

def new (method : Method) (url : String) : Request β where
  url := url
  headers := ∅
  method := method
  certificate := none
  certificateKey := none
  body := none

def setBody (r : Request β) (body : β) : Request β := { r with body := some body }

def addDefaultHeaders (r : Request β) : Request β :=
  { r with headers := r.headers ∪ defaultRequestHeaders }

def addHeader (r : Request β) (header : String) (value : Maskable) : Request β :=
  { r with headers := insert (header, value) r.headers }

def addCertificate (r : Request β) (certificate : Option String) : Request β :=
  { r with certificate }

def addCertificateKey (r : Request β) (certificateKey : Option String) : Request β :=
  { r with certificate := certificateKey }

end Request

structure RequestBuilder (β : Type) where
  url : String
  headers : Headers
  method : Method
  certificate : Option String
  certificateKey : Option String
  body : Option β

namespace RequestBuilder

def new : RequestBuilder β where
  url := ""
  headers := ∅
  method := .get
  certificate := none
  certificateKey := none
  body := none

def setUrl (b : RequestBuilder β) (url : String) : RequestBuilder β := { b with url }

def setMethod (b : RequestBuilder β) (method : Method) : RequestBuilder β := { b with method }

def attachDefaultHeaders (b : RequestBuilder β) : RequestBuilder β :=
  { b with headers := b.headers ∪ defaultRequestHeaders }

/-- Only plain values; a masked one has to come in a list. -/
def header (b : RequestBuilder β) (header value : String) : RequestBuilder β :=
  { b with headers := insert (header, .normal value) b.headers }

def addHeaders (b : RequestBuilder β) (headers : List (String × Maskable)) : RequestBuilder β :=
  { b with headers := b.headers ∪ headers.toFinset }

def setBody (b : RequestBuilder β) (body : β) : RequestBuilder β := { b with body := some body }

def addCertificate (b : RequestBuilder β) (certificate : Option String) : RequestBuilder β :=
  { b with certificate }

def addCertificateKey (b : RequestBuilder β) (certificateKey : Option String) :
    RequestBuilder β :=
  { b with certificateKey }

def build (b : RequestBuilder β) : Request β where
  url := b.url
  headers := b.headers
  method := b.method
  certificate := b.certificate
  certificateKey := b.certificateKey
  body := b.body

end RequestBuilder

inductive Op (β : Type) where
  | setBody (body : β)
  | addHeader (header : String) (value : Maskable)
  | addDefaultHeaders
  | addCertificate (certificate : Option String)
  | addCertificateKey (certificateKey : Option String)

def Request.apply (r : Request β) : Op β → Request β
  | .setBody body => r.setBody body
  | .addHeader header value => r.addHeader header value
  | .addDefaultHeaders => r.addDefaultHeaders
  | .addCertificate certificate => r.addCertificate certificate
  | .addCertificateKey certificateKey => r.addCertificateKey certificateKey

def RequestBuilder.apply (b : RequestBuilder β) : Op β → RequestBuilder β
  | .setBody body => b.setBody body
  | .addHeader header (.normal value) => b.header header value
  | .addHeader header (.masked secret) => b.addHeaders [(header, .masked secret)]
  | .addDefaultHeaders => b.attachDefaultHeaders
  | .addCertificate certificate => b.addCertificate certificate
  | .addCertificateKey certificateKey => b.addCertificateKey certificateKey

def viaSetters (method : Method) (url : String) (ops : List (Op β)) : Request β :=
  ops.foldl Request.apply (.new method url)

def viaBuilder (method : Method) (url : String) (ops : List (Op β)) : Request β :=
  (ops.foldl RequestBuilder.apply ((RequestBuilder.new.setMethod method).setUrl url)).build

/- The arguments of the operations on certificates. -/

def Op.certificate : Op β → Option (Option String)
  | .addCertificate certificate => some certificate
  | _ => none

def Op.certificateKey : Op β → Option (Option String)
  | .addCertificateKey certificateKey => some certificateKey
  | _ => none

def Op.either (op : Op β) : Option (Option String) := op.certificate.or op.certificateKey

def lastOf (arg : Op β → Option (Option String)) (ops : List (Op β)) : Option String :=
  (ops.filterMap arg).getLast?.join

theorem lastOf_snoc (arg : Op β → Option (Option String)) (ops : List (Op β)) (op : Op β) :
    lastOf arg (ops ++ [op]) = (arg op).getD (lastOf arg ops) := by
  rw [lastOf, List.filterMap_append]
  cases h : arg op with
  | none => simp [h, lastOf]
  | some value => simp [h]

structure Sides (ops : List (Op β)) (r : Request β) (b : RequestBuilder β) : Prop where
  url : r.url = b.url
  headers : r.headers = b.headers
  method : r.method = b.method
  body : r.body = b.body
  setterCertificate : r.certificate = lastOf Op.either ops
  setterKey : r.certificateKey = none
  certificate : b.certificate = lastOf Op.certificate ops
  certificateKey : b.certificateKey = lastOf Op.certificateKey ops

theorem Sides.apply {ops : List (Op β)} {r : Request β} {b : RequestBuilder β}
    (sides : Sides ops r b) (op : Op β) : Sides (ops ++ [op]) (r.apply op) (b.apply op) := by
  obtain ⟨url, headers, method, body, either, setterKey, certificate, certificateKey⟩ := sides
  have last : ∀ {arg : Op β → Option (Option String)} {value},
      value = (arg op).getD (lastOf arg ops) → value = lastOf arg (ops ++ [op]) :=
    fun same => same.trans (lastOf_snoc _ ops op).symm
  cases op with
  | setBody body' =>
    exact ⟨url, headers, method, rfl, last either, setterKey, last certificate,
      last certificateKey⟩
  | addHeader header value =>
    have inserted : (r.addHeader header value).headers =
        (b.apply (.addHeader header value)).headers := by
      cases value with
      | normal value => exact congrArg (insert (header, Maskable.normal value)) headers
      | masked secret =>
        change insert _ r.headers = b.headers ∪ [(header, Maskable.masked secret)].toFinset
        rw [headers, List.toFinset_cons, List.toFinset_nil, insert_empty_eq, Finset.union_comm,
          Finset.singleton_union]
    cases value <;> exact ⟨url, inserted, method, body, last either, setterKey, last certificate,
      last certificateKey⟩
  | addDefaultHeaders =>
    exact ⟨url, congrArg (· ∪ defaultRequestHeaders) headers, method, body, last either,
      setterKey, last certificate, last certificateKey⟩
  | addCertificate certificate' =>
    exact ⟨url, headers, method, body, last rfl, setterKey, last rfl, last certificateKey⟩
  | addCertificateKey certificateKey' =>
    exact ⟨url, headers, method, body, last rfl, setterKey, last certificate, last rfl⟩

theorem sides (method : Method) (url : String) (ops : List (Op β)) :
    Sides ops (viaSetters method url ops) (ops.foldl RequestBuilder.apply
      ((RequestBuilder.new.setMethod method).setUrl url)) := by
  induction ops using List.reverseRecOn with
  | nil => exact ⟨rfl, rfl, rfl, rfl, rfl, rfl, rfl, rfl⟩
  | append_singleton ops op ih =>
    rw [viaSetters, List.foldl_append, List.foldl_append]
    exact ih.apply op

/-- The two ways agree if the last certificate key is none, and if what came last of
certificates and keys is also the last certificate. -/
theorem setters_eq_builder (method : Method) (url : String) (ops : List (Op β)) :
    viaSetters method url ops = viaBuilder method url ops ↔
      lastOf Op.certificateKey ops = none ∧
        lastOf Op.either ops = lastOf Op.certificate ops := by
  have run := sides method url ops
  constructor
  · intro same
    have key := congrArg Request.certificateKey same
    have certificate := congrArg Request.certificate same
    exact ⟨run.certificateKey.symm.trans (key.symm.trans run.setterKey),
      run.setterCertificate.symm.trans (certificate.trans run.certificate)⟩
  · rintro ⟨key, certificate⟩
    change _ = Request.mk _ _ _ _ _ _
    rw [← run.url, ← run.headers, ← run.method, ← run.body, run.certificate, run.certificateKey,
      key, ← certificate, ← run.setterCertificate, ← run.setterKey]

/-- The setter for the key puts it where the certificate was. -/
theorem certificate_key_lost : viaSetters (β := Unit) .post "https://connector"
    [.addCertificate (some "certificate"), .addCertificateKey (some "key")] ≠
      viaBuilder .post "https://connector"
        [.addCertificate (some "certificate"), .addCertificateKey (some "key")] := by
  intro same
  have key := congrArg Request.certificateKey same
  cases key

end Mercado.Http
