import OriginTools.Vcs.Fetch
import OriginTools.Vcs.Stream

/-!
# Bundles

Objects and tips in one file (`bundle.rs`): the magic, a record with the manifest, a record
for each object, and a record of length zero.
-/

namespace OriginTools.Vcs.Bundle
open Store Vcs.Stream List

def magic : Bytes := utf8 "OVCSBND1"

def readFull (n : ℕ) (r : Bytes) : Except String (Bytes × Bytes) :=
  if r.length<n then .error "unexpected end of bundle" else .ok (r.take n,r.drop n)

def readLen (r : Bytes) : Except String (ℕ × Bytes) := (readFull 4 r).map fun p => (beValue p.1,p.2)

-- Every pass reads four bytes, so the length of the input bounds the loop.
def readEnvelopes : ℕ → Bytes → Except String (List Bytes)
  | 0,_ => .error "unexpected end of bundle"
  | fuel+1,r => do
    let (olen,r) ← readLen r
    if olen=0 then return []
    let (bytes,r) ← readFull olen r
    let envelopes ← readEnvelopes fuel r
    return bytes::envelopes

def pairUp : ℕ → List String → List Bytes → Except String (List (String × Bytes))
  | _,_,[] => .ok []
  | i,[],_::_ => .error s!"bundle has more objects than manifest ({i})"
  | i,hexid::ids,bytes::rest => do
    let pairs ← pairUp (i+1) ids rest
    return (hexid,bytes)::pairs

variable (sdk : Sdk) (env : Env) (manifestJson : RemoteManifest → Bytes)

def create (s : Store) (info : RepoMeta) : Except String (RemoteManifest × Bytes) := do
  let reachable ← s.reachableFromRefs sdk (info.branches.map Prod.snd) (info.tags.map Prod.snd) []
  let ids:=(Std.ExtTreeSet.ofList reachable compare).toList
  let manifest:=ownManifest info ids
  let envelopes ← ids.mapM s.envelopeBytes
  return (manifest,magic++record (manifestJson manifest)++(envelopes.flatMap record++sentinel))

def parseBundle (file : Bytes) : Except String (RemoteManifest × List (String × Bytes)) := do
  let (start,r) ← readFull 8 file
  if start≠magic then .error "not an origin-vcs bundle (bad magic)" else
    let (mlen,r) ← readLen r
    let (mbytes,r) ← readFull mlen r
    let manifest ← (sdk.parseManifest mbytes).mapError fun e => s!"manifest parse: {e}"
    let envelopes ← readEnvelopes (r.length+1) r
    let pairs ← pairUp 0 manifest.objectIds envelopes
    return (manifest,pairs)

def importObjects : List (String × Bytes) → Command Store String Unit
  | [] => pure ()
  | (hexid,bytes)::rest => do
    let id ← Command.ofExcept (idFromHexStr hexid)
    Command.modify (putEnvelopeBytes id bytes)
    importObjects rest

def importBundle (file : Bytes) (name : String) : Command Store String RemoteManifest := do
  let (manifest,pairs) ← Command.ofExcept (parseBundle sdk file)
  importObjects pairs
  let sign ← Command.ofExcept env.signingBundle
  trackBranches sign name manifest.branches.toList
  return manifest

def verify (s : Store) (file : Bytes) : Except String RemoteManifest := do
  let (manifest,pairs) ← parseBundle sdk file
  pairs.forM fun p => do
    let id ← idFromHexStr p.1
    let stored ← s.envelopeBytes id
    if stored≠p.2 then throw s!"bundle object {short id} differs from store"
    discard ((s.read sdk id).mapError fun e => s!"bundle object {short id} not decryptable: {e}")
  return manifest

structure IsBundle (mbytes : Bytes) (objects : List Bytes) (file : Bytes) : Prop where
  manifest : mbytes.length<2^32
  envelopes : ∀ e∈objects,e≠[] ∧ e.length<2^32
  file : ∃ rest,file=magic++record mbytes++(objects.flatMap record++sentinel++rest)

/-- The terminator comes before as many records as the manifest lists. -/
def EndsEarly (file : Bytes) : Prop :=
  ∃ mbytes manifest envelopes,IsBundle mbytes envelopes file ∧
    sdk.parseManifest mbytes=.ok manifest ∧ envelopes.length < manifest.objectIds.length

def listed (s : Store) (m : RemoteManifest) : Except String (List Bytes) :=
  m.objectIds.mapM fun h => idFromHexStr h >>= s.envelopeBytes

theorem bind_ok_iff {α β : Type} {x} {f : α → Except String β} {b} :
    (x >>= f)=.ok b ↔ ∃ a,x=.ok a ∧ f a=.ok b := by
  cases x <;> simp [bind,Except.bind]

theorem mapError_ok_iff {α : Type} {x : Except String α} {f : String → String} {a : α} :
    x.mapError f=.ok a ↔ x=.ok a := by
  cases x <;> simp [Except.mapError]

theorem ite_ok_iff {α : Type} {c : Prop} [Decidable c] {x : Except String α} {e : String} {a : α} :
    (if c then .error e else x)=.ok a ↔ ¬ c ∧ x=.ok a := by
  by_cases h : c <;> simp [h]

section
variable {n fuel : ℕ} {a r rest : Bytes} {envelopes : List Bytes}

theorem readFull_ok_iff : readFull n r=.ok (a,rest) ↔ r=a++rest ∧ a.length=n := by
  unfold readFull
  split_ifs with hlen
  · simp only [false_iff]
    rintro ⟨rfl,rfl⟩
    simp at hlen
  · simp only [Except.ok.injEq,Prod.mk.injEq]
    constructor
    · rintro ⟨rfl,rfl⟩
      exact ⟨(take_append_drop n r).symm,length_take_of_le (by omega)⟩
    · rintro ⟨rfl,rfl⟩
      simp

theorem readLen_ok_iff : readLen r=.ok (n,rest) ↔ r=beBytes 4 n++rest ∧ n<2^32 := by
  have hread : readLen r=.ok (n,rest) ↔ ∃ a,(r=a++rest ∧ a.length=4) ∧ beValue a=n := by
    simp only [← readFull_ok_iff,readLen]
    rcases readFull 4 r with e | ⟨a,b⟩
    · simp [Except.map]
    · simp [Except.map]
      tauto
  rw [hread]
  constructor
  · rintro ⟨a,⟨rfl,hlen⟩,rfl⟩
    have hbytes:=beBytes_beValue a
    have hlt:=beValue_lt a
    rw [hlen] at hbytes hlt
    rw [hbytes]
    exact ⟨rfl,by omega⟩
  · rintro ⟨rfl,hn⟩
    refine ⟨beBytes 4 n,⟨rfl,length_beBytes 4 n⟩,?_⟩
    rw [beValue_beBytes,Nat.mod_eq_of_lt (by omega)]

theorem readEnvelopes_ok_iff : readEnvelopes fuel r=.ok envelopes ↔ envelopes.length<fuel ∧
    (∀ e∈envelopes,e≠[] ∧ e.length<2^32) ∧ ∃ rest,r=envelopes.flatMap record++sentinel++rest := by
  induction fuel generalizing r envelopes with
  | zero => simp [readEnvelopes]
  | succ fuel ih =>
    simp only [readEnvelopes,bind_ok_iff,Prod.exists,readLen_ok_iff]
    constructor
    · rintro ⟨n,r₁,⟨rfl,hn⟩,h⟩
      split_ifs at h with h0
      · cases h
        exact ⟨by simp,by simp,r₁,by rw [h0]; rfl⟩
      · simp only [bind_ok_iff,Prod.exists,readFull_ok_iff,ih] at h
        obtain ⟨a,r₂,⟨rfl,rfl⟩,es,⟨hlen,hall,rest,rfl⟩,hes⟩ := h
        cases hes
        refine ⟨Nat.succ_lt_succ hlen,forall_mem_cons.mpr ⟨⟨?_,hn⟩,hall⟩,rest,?_⟩
        · rintro rfl
          exact h0 rfl
        · simp [record]
    · rintro ⟨hlen,hall,rest,rfl⟩
      cases envelopes with
      | nil => exact ⟨0,rest,⟨rfl,by decide⟩,rfl⟩
      | cons a es =>
        obtain ⟨⟨h0,hn⟩,hall⟩ := forall_mem_cons.mp hall
        refine ⟨a.length,a++(es.flatMap record++sentinel++rest),⟨by simp [record],hn⟩,?_⟩
        rw [if_neg (by simpa using h0)]
        simp only [bind_ok_iff,Prod.exists,readFull_ok_iff,ih]
        exact ⟨a,_,⟨rfl,rfl⟩,es,⟨Nat.lt_of_succ_lt_succ hlen,hall,rest,rfl⟩,rfl⟩

theorem length_le_records (envelopes : List Bytes) :
    envelopes.length≤(envelopes.flatMap record).length := by
  induction envelopes with
  | nil => rfl
  | cons e envelopes ih =>
    simp only [flatMap_cons,length_append,length_cons,record,length_beBytes]
    omega

theorem pairUp_ok_iff {i ids ps} :
    pairUp i ids envelopes=.ok ps ↔ envelopes.length ≤ ids.length ∧ ps=ids.zip envelopes := by
  induction envelopes generalizing i ids ps with
  | nil => simp [pairUp,eq_comm]
  | cons e envelopes ih =>
    rcases ids with - | ⟨hexid,ids⟩
    · simp [pairUp]
    simp only [pairUp,bind_ok_iff,ih,length_cons,Nat.add_le_add_iff_right,zip_cons_cons]
    constructor
    · rintro ⟨_,⟨hle,rfl⟩,h⟩
      cases h
      exact ⟨hle,rfl⟩
    · rintro ⟨hle,rfl⟩
      exact ⟨_,⟨hle,rfl⟩,rfl⟩

end
variable {sdk manifestJson} {file : Bytes}

theorem parseBundle_ok_iff {m : RemoteManifest} {pairs} :
    parseBundle sdk file=.ok (m,pairs) ↔ ∃ mbytes envelopes,IsBundle mbytes envelopes file ∧
      sdk.parseManifest mbytes=.ok m ∧ envelopes.length ≤ m.objectIds.length ∧
      pairs=m.objectIds.zip envelopes := by
  simp only [parseBundle,bind_ok_iff,Prod.exists,ite_ok_iff,not_not,mapError_ok_iff,
    readFull_ok_iff,readLen_ok_iff,readEnvelopes_ok_iff,pairUp_ok_iff]
  constructor
  · rintro ⟨_,_,⟨rfl,-⟩,rfl,_,_,⟨rfl,hfit⟩,mbytes,_,⟨rfl,rfl⟩,m',hm,envelopes,
      ⟨-,hall,rest,rfl⟩,_,⟨hle,rfl⟩,h⟩
    cases h
    exact ⟨mbytes,envelopes,⟨hfit,hall,rest,by simp [record]⟩,hm,hle,rfl⟩
  · rintro ⟨mbytes,envelopes,⟨hfit,hall,rest,rfl⟩,hm,hle,rfl⟩
    have hlen:=length_le_records envelopes
    refine ⟨magic,_,⟨append_assoc ..,by decide⟩,rfl,_,_,⟨append_assoc ..,hfit⟩,
      mbytes,_,⟨rfl,rfl⟩,m,hm,envelopes,⟨?_,hall,rest,rfl⟩,_,⟨hle,rfl⟩,rfl⟩
    simp only [length_append]
    omega

theorem length_of_mapM {α β : Type} {f : α → Except String β} {l : List α} {bs : List β}
    (h : l.mapM f=.ok bs) : bs.length=l.length := by
  induction l generalizing bs with
  | nil =>
    cases h
    rfl
  | cons a l ih =>
    simp only [mapM_cons,bind_ok_iff] at h
    obtain ⟨b,-,bs',hbs,h⟩ := h
    cases h
    rw [length_cons,length_cons,ih hbs]

theorem create_listed {s info m} (h : create sdk manifestJson s info=.ok (m,file)) :
    ∃ envelopes,listed s m=.ok envelopes ∧
      file=magic++record (manifestJson m)++(envelopes.flatMap record++sentinel) := by
  simp only [create,bind_ok_iff] at h
  obtain ⟨ids,-,envelopes,henv,h⟩ := h
  cases h
  refine ⟨envelopes,?_,rfl⟩
  have hids : (fun h => idFromHexStr h >>= s.envelopeBytes) ∘ hex=s.envelopeBytes := by
    funext id
    rw [Function.comp_apply,idFromHexStr_hex]
    rfl
  rw [← henv,listed,ownManifest,mapM_map,hids]

-- The length field of a longer manifest wraps, and a proper prefix is parsed.
theorem manifest_fits {m mbytes X Y} (hfit : mbytes.length<2^32)
    (hshort : ∀ bytes,bytes <+: manifestJson m → sdk.parseManifest bytes=.ok m →
      bytes=manifestJson m) (hm : sdk.parseManifest mbytes=.ok m)
    (h : magic++record (manifestJson m)++X=magic++record mbytes++Y) :
    (manifestJson m).length<2^32 := by
  simp only [record,append_assoc,append_cancel_left_eq] at h
  obtain ⟨hlen,hbytes⟩ := append_inj h (by rw [length_beBytes,length_beBytes])
  have hvalue:=congrArg beValue hlen
  rw [beValue_beBytes,beValue_beBytes,Nat.mod_eq_of_lt (by omega : mbytes.length<256^4)] at hvalue
  have hpre : mbytes <+: manifestJson m := prefix_of_prefix_length_le
    ⟨Y,hbytes.symm⟩ ⟨X,rfl⟩ (hvalue ▸ Nat.mod_le ..)
  rwa [← hshort mbytes hpre hm]

/-- What a bundle gives back. A proper prefix of the manifest's JSON does not parse as it. -/
theorem bundle_complete_iff {s : Store} {info : RepoMeta} {m : RemoteManifest}
    (hcreate : create sdk manifestJson s info=.ok (m,file))
    (hjson : sdk.parseManifest (manifestJson m)=.ok m)
    (hshort : ∀ bytes,bytes <+: manifestJson m → sdk.parseManifest bytes=.ok m →
      bytes=manifestJson m) :
    ((∃ pairs,parseBundle sdk file=.ok (m,pairs) ∧ pairs.map Prod.fst=m.objectIds ∧
        listed s m=.ok (pairs.map Prod.snd)) ↔
      (manifestJson m).length<2^32 ∧ ∀ envelopes,listed s m=.ok envelopes →
        ∀ e∈envelopes,e≠[] ∧ e.length<2^32) ∧
    ∀ file,(∀ m pairs,parseBundle sdk file=.ok (m,pairs) →
      pairs.length=m.objectIds.length) ↔ ¬ EndsEarly sdk file := by
  obtain ⟨es,hes,hfile⟩ := create_listed hcreate
  refine ⟨⟨?_,?_⟩,fun file => ⟨?_,?_⟩⟩
  · rintro ⟨_,hparse,-,hlisted⟩
    obtain ⟨mbytes,es',hb,hm,hle,rfl⟩ := parseBundle_ok_iff.mp hparse
    obtain ⟨rest,hrest⟩ := hb.file
    refine ⟨manifest_fits hb.manifest hshort hm (hfile.symm.trans hrest),?_⟩
    intro envelopes henv
    rw [hlisted,map_snd_zip hle,Except.ok.injEq] at henv
    exact henv ▸ hb.envelopes
  · rintro ⟨hfit,hall⟩
    have hlen : es.length=m.objectIds.length := length_of_mapM hes
    have hb : IsBundle (manifestJson m) es file := ⟨hfit,hall es hes,[],by simp [hfile]⟩
    refine ⟨_,parseBundle_ok_iff.mpr ⟨_,es,hb,hjson,hlen.le,rfl⟩,?_,?_⟩
    · exact map_fst_zip hlen.ge
    · rw [map_snd_zip hlen.le,hes]
  · rintro h ⟨mbytes,m,es,hb,hm,hlt⟩
    have hlen:=h m _ (parseBundle_ok_iff.mpr ⟨mbytes,es,hb,hm,hlt.le,rfl⟩)
    rw [length_zip] at hlen
    omega
  · intro h m pairs hparse
    obtain ⟨mbytes,es,hb,hm,hle,rfl⟩ := parseBundle_ok_iff.mp hparse
    by_contra hne
    refine h ⟨mbytes,m,es,hb,hm,?_⟩
    rw [length_zip] at hne
    omega

def sampleSdk (m : RemoteManifest) : Sdk :=
  { Sample.sdk with
    parseManifest := fun bytes => if bytes=[1] then .ok m else .error "expected value" }

def oneObject : Store := { Store.empty with objects := Std.ExtTreeMap.ofList [(5,[9])] compare }
def tipOnly : RemoteManifest := ownManifest ⟨none,[("main",5)],[]⟩ [5]

theorem one_object_complete : ∃ pairs,
    parseBundle (sampleSdk tipOnly) (magic++record [1]++(record [9]++sentinel))=
      .ok (tipOnly,pairs) ∧ pairs.map Prod.fst=tipOnly.objectIds ∧
      listed oneObject tipOnly=.ok (pairs.map Prod.snd) := by
  have hshort : ∀ bytes,bytes <+: [1] → (sampleSdk tipOnly).parseManifest bytes=.ok tipOnly →
      bytes=[1] := by
    intro bytes _ h
    by_contra hne
    simp [sampleSdk,hne] at h
  have hlisted : listed oneObject tipOnly=.ok [[9]] := by decide +kernel
  refine (@bundle_complete_iff _ (fun _ => [1]) _ oneObject ⟨none,[("main",5)],[]⟩ _
    (by rfl) rfl hshort).1.mpr ⟨by decide,?_⟩
  rw [hlisted]
  rintro _ ⟨⟩
  decide

/-- The terminator stands where the only listed object should be, and the object is in no
store. -/
theorem early_bundle_accepted : let m : RemoteManifest := ⟨∅,∅,[hex 5],false⟩
    let file:=magic++record [1]++sentinel
    parseBundle (sampleSdk m) file=.ok (m,[]) ∧ m.objectIds.length=1 ∧
      verify (sampleSdk m) Store.empty file=.ok m ∧
      importBundle (sampleSdk m) Sample.env file "b" Store.empty=some (.ok m,Store.empty) :=
  ⟨rfl,rfl,rfl,rfl⟩

end OriginTools.Vcs.Bundle
