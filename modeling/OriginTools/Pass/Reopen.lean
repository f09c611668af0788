import OriginTools.Foundation.SortedMap
import OriginTools.Pass.Vault

/-!
# A saved vault opens again

The length of the encrypted index has 16 bits in the header, so a file can hold only so
many entries; saving does not count them.
-/

namespace OriginTools.Pass
open Vcs (utf8)
open SortedMap List Std.ExtTreeMap
variable {Value : Type} (sdk : PassSdk Value)

def EntryPayload.NoNull (p : EntryPayload Value) : Prop :=
  ∀ v,p.totp=some v ∨ p.hotp=some v ∨ p.ocra=some v → sdk.isNull v=false

/-- The cipher opens what it sealed, and both directions tell the length by the tag. A
field that is `null` in the JSON text is read as absent. -/
structure PassSdk.Ideal : Prop where
  opens : ∀ key nonce pt aad ct,sdk.encrypt key nonce pt aad=.ok ct →
    sdk.decrypt key nonce ct aad=some pt
  length : ∀ key nonce ct aad pt,sdk.decrypt key nonce ct aad=some pt →
    ct.length=pt.length+sdk.tagSize
  present : ∀ json p,sdk.fromJson json=.ok p → p.NoNull sdk

def EntryPayload.readBack (p : EntryPayload Value) : EntryPayload Value :=
  { p with
    totp := p.totp.filter fun v => !sdk.isNull v
    hotp := p.hotp.filter fun v => !sdk.isNull v
    ocra := p.ocra.filter fun v => !sdk.isNull v }

def ReadsBack (entries : Entries Value) : Prop :=
  ∀ (name : String) (p : EntryPayload Value),entries[name]? = some p → ∀ json,sdk.toJson p=.ok json →
    sdk.fromJson json=.ok (p.readBack sdk)

structure Storable (entries : Entries Value) : Prop where
  fits : 8+76*entries.size+sdk.tagSize<2^16
  named : ∀ (name : String) (p : EntryPayload Value),entries[name]? = some p →
    name ≠ "" ∧ p.NoNull sdk

def Reopens (passphrase file : Bytes) (entries : Entries Value) : Prop :=
  ∃ vault,unlockVault sdk passphrase file=some (.ok vault) ∧ vault.entries=entries

def Proper (entries : Entries Value) : Prop :=
  ∀ (name : String) (p : EntryPayload Value),entries[name]? = some p → p.name=name ∧ name ≠ "" ∧ p.NoNull sdk

theorem nameOr_name (nameHash : Block 32) (p : EntryPayload Value) :
    (nameOr nameHash p).name ≠ "" := by
  unfold nameOr
  split_ifs with hname
  · intro h
    simp only [String.append_eq_empty_iff] at h
    exact absurd h.1 (by decide)
  · exact hname

variable {master : Block 32} {data : Bytes}

theorem openEntry_proper (hsdk : sdk.Ideal) {m p} (h : openEntry sdk master data m=.ok p) :
    p.name ≠ "" ∧ p.NoNull sdk := by
  unfold openEntry at h
  split at h
  · cases h
  split at h
  · cases h
  split at h
  · cases h
  next payload hjson =>
    rw [← Except.ok.inj h]
    refine ⟨nameOr_name m.nameHash payload,?_⟩
    have hpresent:=hsdk.present _ payload hjson
    unfold nameOr
    split_ifs
    · exact hpresent
    · exact hpresent

variable {ms : List EntryMetadata}

theorem openEntries_proper (hsdk : sdk.Ideal) (acc entries : Entries Value) (hacc : Proper sdk acc)
    (h : openEntries sdk master data ms acc=.ok entries) :
    Proper sdk entries ∧ entries.size≤acc.size+ms.length := by
  induction ms generalizing acc with
  | nil =>
    rw [openEntries,Except.ok.injEq] at h
    exact h ▸ ⟨hacc,le_rfl⟩
  | cons m ms ih =>
    obtain ⟨p,hp,hrest⟩ := bind_eq_ok h
    obtain ⟨hname,hnull⟩ := openEntry_proper sdk hsdk hp
    have hnext : Proper sdk (acc.insert p.name p) := by
      intro name q hq
      simp only [Std.ExtTreeMap.getElem?_insert,Std.LawfulEqCmp.compare_eq_iff_eq] at hq
      split_ifs at hq with hkey
      · cases hq
        exact ⟨hkey,hkey ▸ hname,hnull⟩
      · exact hacc name q hq
    obtain ⟨hproper,hsize⟩ := ih (acc.insert p.name p) hnext hrest
    have hinsert:=size_insert_le (t := acc) (k := p.name) (v := p)
    refine ⟨hproper,?_⟩
    rw [length_cons]
    omega

theorem parseRows_length (n bytes) (ms : List EntryMetadata) (h : parseRows n bytes=.ok ms) :
    ms.length=n := by
  induction n generalizing bytes ms with
  | zero =>
    cases h
    rfl
  | succ n ih =>
    obtain ⟨m,-,hrest⟩ := bind_eq_ok h
    obtain ⟨rest,htail,rfl⟩ := map_eq_ok hrest
    rw [length_cons,ih _ rest htail]

theorem parseIndexBytes_length {bytes} (h : parseIndexBytes bytes=.ok ms) :
    8+76*ms.length≤bytes.length := by
  simp only [parseIndexBytes] at h
  split_ifs at h with hshort hversion hneed
  rw [parseRows_length _ _ ms h]
  omega

theorem placeEntries_length (cursor : ℕ) (placed : List EntryMetadata × ℕ)
    (h : placeEntries cursor ms=.ok placed) : placed.1.length=ms.length := by
  induction ms generalizing cursor placed with
  | nil =>
    cases h
    rfl
  | cons m ms ih =>
    unfold placeEntries at h
    split_ifs at h
    obtain ⟨rest,hrest,rfl⟩ := map_eq_ok h
    rw [length_cons,length_cons,ih _ rest hrest]

theorem fromWire_spec {bytes header} (h : VaultHeader.fromWire sdk bytes=.ok header) :
    header.cipherSuite=cipherChaCha20Blake3 ∧ header.headerCtLen<2^16 := by
  unfold VaultHeader.fromWire at h
  split_ifs at h with hlen hmagic hversion hsuite hreserved
  obtain ⟨tier,-,h⟩ := bind_eq_ok h
  dsimp only at h
  split_ifs at h
  rw [← Except.ok.inj h]
  refine ⟨not_not.mp hsuite,?_⟩
  set word := (((bytes.drop 8).drop 16).drop 24).take 2 with hword
  have htwo : word.length≤2 := length_take_le ..
  have hlt:=beValue_lt word
  have hpow : 256^word.length≤256^2 := Nat.pow_le_pow_right (by omega) htwo
  dsimp only
  omega

theorem unlockVault_spec (hsdk : sdk.Ideal) {passphrase vault}
    (h : unlockVault sdk passphrase data=some (.ok vault)) :
    vault.header.cipherSuite=cipherChaCha20Blake3 ∧ Proper sdk vault.entries ∧
      8+76*vault.entries.size+sdk.tagSize<2^16 := by
  unfold unlockVault at h
  split at h
  · simp at h
  next header hread =>
    have hheader : VaultHeader.fromWire sdk (data.take headerBytesLen)=.ok header := by
      unfold readVaultFile at hread
      split_ifs at hread
      exact hread
    obtain ⟨hsuite,hctLen⟩ := fromWire_spec sdk hheader
    split at h
    · simp at h
    next master _ =>
      unfold decryptVault at h
      split at h
      · cases h
      next hrange =>
        split at h
        · simp at h
        next index hindex =>
          rw [Option.some.injEq] at h
          obtain ⟨metadata,hmeta,h⟩ := bind_eq_ok h
          obtain ⟨placed,hplaced,h⟩ := bind_eq_ok h
          split_ifs at h
          obtain ⟨entries,hentries,rfl⟩ := map_eq_ok h
          have hempty : Proper sdk (∅ : Entries Value) := by
            intro name p hp
            simp at hp
          obtain ⟨hproper,hsize⟩ := openEntries_proper sdk hsdk ∅ entries hempty hentries
          -- the index is as long as the header says, and holds a row for each entry
          have hlen:=hsdk.length _ _ _ _ _ hindex
          have hrows:=parseIndexBytes_length hmeta
          have hcount:=placeEntries_length _ placed hplaced
          rw [length_take,length_drop] at hlen
          rw [size_empty] at hsize
          refine ⟨hsuite,hproper,?_⟩
          dsimp only
          omega

@[simp] theorem block_append {n} (b : Block n) (rest : Bytes) : block n (b.toList++rest)=b := by
  apply List.Vector.eq
  show (b.toList++rest).takeD n 0=b.toList
  rw [takeD_eq_take _ (by simp),take_left' b.toList_length]

@[simp] theorem take_word (n x rest) : (beBytes n x++rest).take n=beBytes n x :=
  take_left' (length_beBytes n x)

@[simp] theorem drop_word (n x rest) : (beBytes n x++rest).drop n=rest :=
  drop_left' (length_beBytes n x)

theorem VaultHeader.length_toWire (h : VaultHeader) : h.toWire.length=headerBytesLen := by
  simp [VaultHeader.toWire,magic,length_beBytes,headerBytesLen]

theorem tierFromByte_toByte (tier : MemoryTier) : tierFromByte (tierToByte tier)=.ok tier := by
  cases tier <;> rfl

theorem VaultHeader.fromWire_toWire (h : VaultHeader)
    (hsuite : h.cipherSuite=cipherChaCha20Blake3) (htag : sdk.tagSize≤h.headerCtLen)
    (hlen : h.headerCtLen<2^16) : fromWire sdk h.toWire=.ok h := by
  obtain ⟨suite,tier,salt,nonce,ctLen⟩ := h
  have hwire : toWire ⟨suite,tier,salt,nonce,ctLen⟩=[0x4f,0x56,0x4c,0x54,version,suite,
      tierToByte tier,0]++(salt.toList++(nonce.toList++beBytes 2 ctLen)) := by
    simp [toWire,magic]
  have hfull : ¬ (toWire ⟨suite,tier,salt,nonce,ctLen⟩).length<headerBytesLen := by
    rw [VaultHeader.length_toWire]
    omega
  have hvalue : beValue ((beBytes 2 ctLen).take 2)=ctLen := by
    rw [take_of_length_le (length_beBytes 2 ctLen).le,beValue_beBytes,
      Nat.mod_eq_of_lt (by simpa using hlen)]
  dsimp only at hsuite htag
  rw [fromWire,if_neg hfull,hwire]
  simp [magic,hsuite,tierFromByte_toByte,Except.bind,hvalue,Nat.not_lt.mpr htag]

theorem EntryMetadata.length_toWire (m : EntryMetadata) : m.toWire.length=76 := by
  simp [EntryMetadata.toWire,length_beBytes]

structure EntryMetadata.Fresh (m : EntryMetadata) : Prop where
  offset : m.entryCtOffset=0
  ctLen : m.entryCtLen<2^32
  period : m.periodSecs<2^16

theorem EntryMetadata.fromWire_toWire (m : EntryMetadata) (h : m.Fresh) :
    fromWire m.toWire=.ok m := by
  have hfull : ¬ m.toWire.length<76 := by
    rw [EntryMetadata.length_toWire]
    omega
  obtain ⟨nameHash,nonce,offset,ctLen,typeTag,algo,period,digits⟩ := m
  obtain rfl : offset=0 := h.offset
  have hctLen : beValue (beBytes 4 ctLen)=ctLen := by
    rw [beValue_beBytes,Nat.mod_eq_of_lt (by simpa using h.ctLen)]
  have hperiod : beValue (beBytes 2 period)=period := by
    rw [beValue_beBytes,Nat.mod_eq_of_lt (by simpa using h.period)]
  have hdigits (rest : Bytes) : (beBytes 2 period++digits::rest)[2]? = some digits := by
    rw [getElem?_append_right (length_beBytes 2 period).le,length_beBytes]
    rfl
  rw [fromWire,if_neg hfull]
  simp [EntryMetadata.toWire,hctLen,hperiod]
  exact (List.getElem?_eq_some_iff.mp (hdigits _)).2

theorem parseRows_toWire (hms : ∀ m∈ms,m.Fresh) :
    parseRows ms.length (ms.flatMap EntryMetadata.toWire)=.ok ms := by
  induction ms with
  | nil => rfl
  | cons m ms ih =>
    have hlen:=m.length_toWire
    have hrest:=ih fun x hx => hms x (.tail _ hx)
    simp only [length_cons,flatMap_cons,parseRows,take_left' hlen,
      drop_left' hlen,m.fromWire_toWire (hms m (.head _)),Except.bind,hrest]
    rfl

theorem length_flatMap_toWire (ms : List EntryMetadata) :
    (ms.flatMap EntryMetadata.toWire).length=76*ms.length := by
  induction ms with
  | nil => rfl
  | cons m ms ih =>
    rw [flatMap_cons,length_append,m.length_toWire,ih,length_cons]
    omega

theorem length_buildIndexBytes (ms : List EntryMetadata) :
    (buildIndexBytes ms).length=8+76*ms.length := by
  simp only [buildIndexBytes,length_append,length_beBytes,length_flatMap_toWire]
  omega

theorem parseIndexBytes_build (hms : ∀ m∈ms,m.Fresh) (hcount : ms.length<2^32) :
    parseIndexBytes (buildIndexBytes ms)=.ok ms := by
  have hlen:=length_buildIndexBytes ms
  have hvalue : beValue (beBytes 4 ms.length)=ms.length := by
    rw [beValue_beBytes,Nat.mod_eq_of_lt (by simpa using hcount)]
  have hversion : beValue (beBytes 4 1)=1 := by decide
  simp only [parseIndexBytes,hlen]
  simp only [buildIndexBytes,take_word,drop_word,hvalue,hversion,ne_eq,not_true_eq_false,
    if_false,parseRows_toWire hms]
  rw [if_neg (by omega),if_neg (by omega)]

theorem payloadTags_period (p) : (payloadTags sdk p).2.2.1<2^16 := by
  unfold payloadTags
  cases p.totp with
  | some totp => exact Nat.mod_lt _ (by norm_num)
  | none => cases p.ocra <;> exact Nat.two_pow_pos 16

variable {nonce : ℕ → Except String (Block 24)} {rows : List (String × EntryPayload Value)}

theorem sealEntries_cons {i name payload sealed}
    (h : sealEntries sdk nonce master i ((name,payload)::rows)=.ok sealed) :
    ∃ m json ct rest,sealed=(m,ct)::rest ∧ sealEntries sdk nonce master (i+1) rows=.ok rest ∧
      m.Fresh ∧ m.nameHash=sdk.sha3_256 (utf8 name) ∧ m.entryCtLen=ct.length%2^32 ∧
      sdk.toJson payload=.ok json ∧
      sdk.encrypt (deriveEntryKey sdk master m.entryNonce) m.entryNonce json
        (buildEntryAad m.nameHash m.entryNonce)=.ok ct := by
  obtain ⟨entryNonce,-,h⟩ := bind_eq_ok h
  obtain ⟨json,hjson,h⟩ := bind_eq_ok h
  obtain ⟨ct,hct,h⟩ := bind_eq_ok h
  obtain ⟨rest,hrest,rfl⟩ := map_eq_ok h
  exact ⟨_,json,ct,rest,rfl,hrest,
    ⟨rfl,Nat.mod_lt _ (by norm_num),payloadTags_period sdk payload⟩,rfl,rfl,
    mapError_ok hjson,mapError_ok hct⟩

theorem sealEntries_fresh (i : ℕ) (sealed : List (EntryMetadata × Bytes))
    (h : sealEntries sdk nonce master i rows=.ok sealed) :
    sealed.length=rows.length ∧ ∀ m∈sealed.map Prod.fst,m.Fresh := by
  induction rows generalizing i sealed with
  | nil =>
    cases h
    simp
  | cons row rows ih =>
    obtain ⟨m,json,ct,rest,rfl,hrest,hm,-⟩ := sealEntries_cons sdk h
    obtain ⟨hlen,hfresh⟩ := ih (i+1) rest hrest
    rw [length_cons,length_cons,hlen,map_cons,forall_mem_cons]
    exact ⟨rfl,hm,hfresh⟩

def reopened (row : String × EntryPayload Value) : EntryPayload Value :=
  nameOr (sdk.sha3_256 (utf8 row.1)) (row.2.readBack sdk)

theorem openEntries_sealed (hsdk : sdk.Ideal) (hrows : ∀ row∈rows,∀ json,sdk.toJson row.2=.ok json →
      sdk.fromJson json=.ok (row.2.readBack sdk)) (i : ℕ) (sealed : List (EntryMetadata × Bytes))
    (h : sealEntries sdk nonce master i rows=.ok sealed) (front : Bytes) (acc : Entries Value)
    (hsize : (front++(sealed.map Prod.snd).flatten).length<2^32) :
    ∃ placed,placeEntries front.length (sealed.map Prod.fst)=
        .ok (placed,(front++(sealed.map Prod.snd).flatten).length) ∧
      openEntries sdk master (front++(sealed.map Prod.snd).flatten) placed acc=
        .ok (acc.insertMany (rows.map fun row => ((reopened sdk row).name,reopened sdk row))) := by
  induction rows generalizing i sealed front acc with
  | nil =>
    cases h
    exact ⟨[],by simp [placeEntries],by simp [openEntries]⟩
  | cons row rows ih =>
    obtain ⟨m,json,ct,rest,rfl,hrest,-,hhash,hctLen,hjson,hct⟩ := sealEntries_cons sdk h
    simp only [map_cons,flatten_cons,← append_assoc] at hsize ⊢
    have hlen : m.entryCtLen=ct.length := by
      rw [hctLen]
      apply Nat.mod_eq_of_lt
      simp only [length_append] at hsize
      omega
    obtain ⟨placed,hplaced,hopened⟩ := ih (fun r hr => hrows r (.tail _ hr))
      (i+1) rest hrest (front++ct) (acc.insert (reopened sdk row).name (reopened sdk row)) hsize
    have hend : front.length+m.entryCtLen=(front++ct).length := by
      rw [hlen,length_append]
    have hplain:=hsdk.opens _ _ _ _ _ hct
    rw [hhash] at hplain
    have hentry : openEntry sdk master (front++ct++(rest.map Prod.snd).flatten)
        { m with entryCtOffset := front.length }=.ok (reopened sdk row) := by
      have hrange : ¬ (front++(ct++(rest.map Prod.snd).flatten)).length<
          front.length+ct.length := by
        simp only [length_append]
        omega
      simp only [openEntry,append_assoc,hlen,if_neg hrange,drop_left,take_left,
        hhash,hplain,hrows row mem_cons_self json hjson,reopened]
    refine ⟨{ m with entryCtOffset := front.length }::placed,?_,?_⟩
    · rw [placeEntries,hend,if_pos (by simp only [length_append] at hsize ⊢; omega),hplaced]
      rfl
    · rw [openEntries,hentry,Except.bind,hopened,insertMany_cons]

theorem readBack_eq {p : EntryPayload Value} (h : p.NoNull sdk) : p.readBack sdk=p := by
  have hkeep (o : Option Value) (ho : ∀ v,o=some v → sdk.isNull v=false) :
      o.filter (fun v => !sdk.isNull v)=o := by
    cases o with
    | none => rfl
    | some v => simp [ho v rfl]
  simp only [EntryPayload.readBack,hkeep p.totp fun v hv => h v (.inl hv),
    hkeep p.hotp fun v hv => h v (.inr (.inl hv)),hkeep p.ocra fun v hv => h v (.inr (.inr hv))]

theorem insertMany_toList (m : Entries Value) : (∅ : Entries Value).insertMany m.toList=m := by
  apply Std.ExtTreeMap.ext_getElem?
  intro k
  rw [← Std.ExtTreeMap.ofList_eq_insertMany_empty]
  apply Option.ext
  intro v
  rw [getElem?_ofList (ascending_toList m).distinct]
  exact mem_toList_iff_getElem?_eq_some

theorem reopens_of_storable (hsdk : sdk.Ideal) (passphrase : Bytes)
    (nonce : ℕ → Except String (Block 24)) (vault : Vault Value) (file : Bytes)
    (hsuite : vault.header.cipherSuite=cipherChaCha20Blake3)
    (hkey : argon2idDerive sdk passphrase vault.header.kdfSalt vault.header.kdfTier=
      .ok vault.masterKey)
    (hnames : ∀ (name : String) p,vault.entries[name]? = some p → p.name=name)
    (hjson : ReadsBack sdk vault.entries) (hsave : persistVault sdk nonce vault=.ok file)
    (hsize : file.length ≤ maxVaultLen) (hstore : Storable sdk vault.entries) :
    Reopens sdk passphrase file vault.entries := by
  obtain ⟨entryData,hentries,hsave⟩ := bind_eq_ok hsave
  obtain ⟨headerNonce,-,hsave⟩ := bind_eq_ok hsave
  obtain ⟨headerCt,hheaderCt,hsave⟩ := bind_eq_ok hsave
  have hopen:=hsdk.opens _ _ _ _ _ (mapError_ok hheaderCt)
  obtain ⟨hcount,hfresh⟩ := sealEntries_fresh sdk 0 entryData hentries
  rw [length_toList] at hcount
  have hctLen:=hsdk.length _ _ _ _ _ hopen
  rw [length_buildIndexBytes,length_map,hcount] at hctLen
  have hfits:=hstore.fits
  let header : VaultHeader :=
    { vault.header with headerNonce := headerNonce,headerCtLen := headerCt.length }
  obtain rfl : header.toWire++headerCt++(entryData.map Prod.snd).flatten=file := Except.ok.inj hsave
  have hwire : header.toWire.length=headerBytesLen := header.length_toWire
  have hfront : (header.toWire++headerCt).length=headerBytesLen+headerCt.length := by
    rw [length_append,hwire]
  have hread : readVaultFile sdk (header.toWire++headerCt++(entryData.map Prod.snd).flatten)=
      .ok header := by
    rw [readVaultFile,if_neg (by rw [append_assoc,length_append,hwire]; omega),
      if_neg (by omega),append_assoc,take_left' hwire]
    exact header.fromWire_toWire sdk hsuite (by dsimp only [header]; omega)
      (by dsimp only [header]; omega)
  obtain ⟨placed,hplaced,hopened⟩ := openEntries_sealed sdk hsdk (fun row hrow => hjson row.1 row.2
      (mem_toList_iff_getElem?_eq_some.mp hrow)) 0 entryData hentries
    (header.toWire++headerCt) ∅ (lt_of_le_of_lt hsize (by norm_num [maxVaultLen]))
  -- saved entries come back as they were, under their own names
  have hsame : vault.entries.toList.map (fun row => ((reopened sdk row).name,reopened sdk row))=
      vault.entries.toList := by
    refine (map_congr_left fun row hrow => ?_).trans (map_id _)
    have hget:=mem_toList_iff_getElem?_eq_some.mp hrow
    have hname:=hnames row.1 row.2 hget
    have hrow : reopened sdk row=row.2 := by
      rw [reopened,readBack_eq sdk (hstore.named row.1 row.2 hget).2,nameOr,
        if_neg (hname ▸ (hstore.named row.1 row.2 hget).1)]
    rw [hrow,hname]
    rfl
  rw [hsame,insertMany_toList] at hopened
  refine ⟨⟨header,vault.entries,vault.masterKey⟩,?_,rfl⟩
  have hrange : ¬ (header.toWire++headerCt++(entryData.map Prod.snd).flatten).length<
      headerBytesLen+header.headerCtLen := by
    rw [length_append,hfront]
    dsimp only [header]
    omega
  have hslice : ((header.toWire++headerCt++(entryData.map Prod.snd).flatten).drop
      headerBytesLen).take header.headerCtLen=headerCt := by
    rw [append_assoc,drop_left' hwire,take_left]
  have hindex:=parseIndexBytes_build hfresh (by
    rw [length_map]
    omega)
  rw [hfront] at hplaced
  have hkey' : argon2idDerive sdk passphrase header.kdfSalt header.kdfTier=
    .ok vault.masterKey := hkey
  have hopen' : sdk.decrypt (deriveHeaderKey sdk vault.masterKey) header.headerNonce headerCt []=
    some (buildIndexBytes (entryData.map Prod.fst)) := hopen
  have hplaced' : placeEntries (headerBytesLen+header.headerCtLen) (entryData.map Prod.fst)=_ :=
    hplaced
  simp only [unlockVault,hread,hkey',decryptVault,if_neg hrange,hslice,hopen',openIndex,
    hindex,Except.bind,hplaced',ne_eq,not_true_eq_false,if_false,hopened,Except.map]

theorem saved_vault_reopens_iff (hsdk : sdk.Ideal) (nonce : ℕ → Except String (Block 24)) :
    (∀ (passphrase : Bytes) (vault : Vault Value) (file : Bytes),
      vault.header.cipherSuite=cipherChaCha20Blake3 →
      argon2idDerive sdk passphrase vault.header.kdfSalt vault.header.kdfTier= .ok vault.masterKey →
      (∀ (name : String) p,vault.entries[name]? = some p → p.name=name) →
      ReadsBack sdk vault.entries → persistVault sdk nonce vault=.ok file →
      file.length ≤ maxVaultLen →
      (Reopens sdk passphrase file vault.entries ↔ Storable sdk vault.entries)) ∧
    ∀ (old new : Bytes) (tier : MemoryTier) (salt : Except String (Block 16)) (data file : Bytes)
      (vault : Vault Value),unlockVault sdk old data=some (.ok vault) →
      ReadsBack sdk vault.entries →
      changeVaultPassphrase sdk old new tier salt nonce data=some (.ok file) →
      file.length ≤ maxVaultLen → Reopens sdk new file vault.entries := by
  constructor
  · intro passphrase vault file hsuite hkey hnames hjson hsave hsize
    constructor
    · rintro ⟨opened,hopened,hentries⟩
      obtain ⟨-,hproper,hfits⟩ := unlockVault_spec sdk hsdk hopened
      rw [hentries] at hproper hfits
      exact ⟨hfits,fun name p hp => (hproper name p hp).2⟩
    · exact reopens_of_storable sdk hsdk passphrase nonce vault file hsuite hkey hnames hjson hsave
        hsize
  · intro old new tier salt data file vault hopened hjson hchange hsize
    obtain ⟨hsuite,hproper,hfits⟩ := unlockVault_spec sdk hsdk hopened
    rw [changeVaultPassphrase,hopened,Option.map_some,Option.some.injEq] at hchange
    obtain ⟨_,hvault,hchange⟩ := bind_eq_ok hchange
    cases hvault
    obtain ⟨newSalt,-,hchange⟩ := bind_eq_ok hchange
    obtain ⟨newMaster,hkey,hsave⟩ := bind_eq_ok hchange
    exact reopens_of_storable sdk hsdk new nonce { vault with
        header := { vault.header with kdfSalt := newSalt,kdfTier := tier }
        masterKey := newMaster } file hsuite hkey
      (fun name p hp => (hproper name p hp).1) hjson hsave hsize
      ⟨hfits,fun name p hp => (hproper name p hp).2⟩

namespace Sample

def entryOf (n : ℕ) : EntryPayload Unit :=
  ⟨String.ofList (List.replicate n 'a'),"password",none,none,none,0,0,none,none,none⟩

def plainSdk : PassSdk Unit where
  tagSize := 32
  argon2 _ _ _ := .ok (List.replicate 32 0)
  hkdf master _ _ := master
  sha3_256 _ := List.Vector.replicate 32 0
  encrypt _ _ pt _ := .ok (pt++List.replicate 32 0)
  decrypt _ _ ct _ := if ct.length<32 then none else some (ct.take (ct.length-32))
  toJson p := .ok (List.replicate p.name.length 0)
  fromJson json := .ok (entryOf json.length)
  isNull _ := true
  textAt _ _ := none
  numberAt _ _ := none
  fromUtf8Lossy _ := ""

theorem plainSdk_ideal : plainSdk.Ideal where
  opens key nonce pt aad ct h := by
    cases h
    simp [plainSdk]
  length key nonce ct aad pt h := by
    simp only [plainSdk] at h ⊢
    split_ifs at h with hlen
    cases h
    rw [length_take]
    omega
  present json p h v hv := by
    cases h
    simp [entryOf] at hv

def header : VaultHeader :=
  ⟨cipherChaCha20Blake3,.nano,List.Vector.replicate 16 0,List.Vector.replicate 24 0,0⟩

def zeroNonce (_ : ℕ) : Except String (Block 24) := .ok (List.Vector.replicate 24 0)

def rowsOf (n : ℕ) : List (String × EntryPayload Unit) :=
  (List.range n).map fun i => ((entryOf (i+1)).name,entryOf (i+1))

def vaultOf (n : ℕ) : Vault Unit :=
  ⟨header,ofList (rowsOf n) compare,⟨List.replicate 32 0,length_replicate⟩⟩

variable (n : ℕ)

theorem length_entryOf : (entryOf n).name.length=n := by
  simp [entryOf]

theorem rowsOf_distinct : (rowsOf n).Pairwise fun p q => ¬ compare p.1 q.1=.eq := by
  refine pairwise_map.mpr (pairwise_lt_range.imp fun {i j} hij h => ?_)
  have hlen:=congrArg String.length (Std.LawfulEqCmp.eq_of_compare h)
  rw [length_entryOf,length_entryOf] at hlen
  omega

theorem vaultOf_get (name : String) (p : EntryPayload Unit)
    (h : (vaultOf n).entries[name]? = some p) : p.name=name ∧ ∃ i<n,p=entryOf (i+1) := by
  have hmem:=(getElem?_ofList (rowsOf_distinct n) name p).mp h
  obtain ⟨i,hi,hrow⟩ := mem_map.mp hmem
  cases hrow
  exact ⟨rfl,i,mem_range.mp hi,rfl⟩

theorem vaultOf_readsBack : ReadsBack plainSdk (vaultOf n).entries := by
  intro name p hp json hjson
  obtain ⟨-,i,-,rfl⟩ := vaultOf_get n name p hp
  cases hjson
  simp [plainSdk,EntryPayload.readBack,entryOf]

theorem vaultOf_size : (vaultOf n).entries.size=n := by
  have hsize:=size_ofList (rowsOf_distinct n)
  rwa [rowsOf,length_map,length_range] at hsize

theorem sealEntries_plain (key) {rows} (i) (hrows : ∀ row∈rows,row.2.name.length≤1000) :
    ∃ sealed,sealEntries plainSdk zeroNonce key i rows=.ok sealed ∧
      (sealed.map Prod.snd).flatten.length≤1032*rows.length := by
  induction rows generalizing i with
  | nil => exact ⟨[],rfl,le_rfl⟩
  | cons row rows ih =>
    obtain ⟨rest,hrest,hlen⟩ := ih (i+1) fun r hr => hrows r (.tail _ hr)
    have hrow:=hrows row (.head _)
    rw [sealEntries,hrest]
    refine ⟨_,rfl,?_⟩
    simp only [map_cons,flatten_cons,length_append,length_replicate,length_cons]
    omega

theorem vaultOf_saved (hn : n≤1000) :
    ∃ file,persistVault plainSdk zeroNonce (vaultOf n)=.ok file ∧ file.length ≤ maxVaultLen := by
  obtain ⟨sealed,hsealed,hlen⟩ := sealEntries_plain (vaultOf n).masterKey 0 fun row hrow => by
      obtain ⟨-,i,hi,hp⟩ := vaultOf_get n row.1 row.2 (mem_toList_iff_getElem?_eq_some.mp hrow)
      rw [hp,length_entryOf]
      omega
  have hcount:=(sealEntries_fresh plainSdk 0 sealed hsealed).1
  rw [length_toList,vaultOf_size] at hlen hcount
  rw [persistVault,hsealed]
  refine ⟨_,rfl,?_⟩
  simp only [length_append,VaultHeader.length_toWire,length_buildIndexBytes,
    length_map,length_replicate,headerBytesLen,maxVaultLen]
  omega

end Sample
open Sample in
theorem one_entry_reopens : ∃ file,persistVault plainSdk zeroNonce (vaultOf 1)=.ok file ∧
    Reopens plainSdk [] file (vaultOf 1).entries := by
  obtain ⟨file,hsave,hsize⟩ := vaultOf_saved 1 (by decide)
  refine ⟨file,hsave,?_⟩
  refine ((saved_vault_reopens_iff plainSdk plainSdk_ideal zeroNonce).1 [] (vaultOf 1) file rfl rfl
    (fun name p hp => (vaultOf_get 1 name p hp).1) (vaultOf_readsBack 1) hsave hsize).mpr
    ⟨?_,fun name p hp => ?_⟩
  · rw [vaultOf_size]
    decide
  · obtain ⟨hown,i,-,rfl⟩ := vaultOf_get 1 name p hp
    refine ⟨fun hname => ?_,fun v hv => by simp [entryOf] at hv⟩
    have hlen:=congrArg String.length (hown.trans hname)
    rw [length_entryOf] at hlen
    simp at hlen

open Sample in
/-- The index of 862 entries is 65552 bytes long with its tag, and the header says 16. -/
theorem many_entries_lost : ∃ file,
    persistVault plainSdk zeroNonce (vaultOf 862)=.ok file ∧ file.length ≤ maxVaultLen ∧
      (vaultOf 862).entries.size=862 ∧
      (∀ (name : String) p,(vaultOf 862).entries[name]? = some p → p.name=name) ∧
      ReadsBack plainSdk (vaultOf 862).entries ∧
      ¬ Reopens plainSdk [] file (vaultOf 862).entries := by
  obtain ⟨file,hsave,hsize⟩ := vaultOf_saved 862 (by decide)
  refine ⟨file,hsave,hsize,vaultOf_size 862,fun name p hp => (vaultOf_get 862 name p hp).1,
    vaultOf_readsBack 862,?_⟩
  rintro ⟨opened,hopened,hentries⟩
  have hfits:=(unlockVault_spec plainSdk plainSdk_ideal hopened).2.2
  rw [hentries,vaultOf_size] at hfits
  exact absurd hfits (by decide)

end OriginTools.Pass
