import OriginTools.Foundation.Framing
import OriginTools.Vcs.Sample

/-!
# Nested tree objects as an encoding of flat trees

`write_tree` followed by `read_tree` (`store.rs`).
-/

namespace OriginTools.Vcs
open Store List

structure IsPath (p : List String) : Prop where
  ne_nil : p≠[]
  segments : ∀ seg∈p,seg ≠ "" ∧ '/'∉seg.toList

def joinStep (pre name : String) : String := if pre = "" then name else s!"{pre}/{name}"
def joinPath (pre : String) (p : List String) : String := p.foldl joinStep pre

theorem joinStep_toList (pre name : String) (h : pre ≠ "") :
    (joinStep pre name).toList=pre.toList ++ '/'::name.toList := by
  simp [joinStep,h,toString]

theorem joinPath_toList (pre : String) (p : List String) (h : pre ≠ "") :
    (joinPath pre p).toList=['/'].intercalate (pre.toList::p.map String.toList) := by
  induction p generalizing pre with
  | nil => simp [joinPath]
  | cons seg p ih =>
    have hstep:=joinStep_toList pre seg h
    have hne : joinStep pre seg ≠ "" := by
      intro hnil
      simp [hnil] at hstep
    have hrest:=ih (joinStep pre seg) hne
    simp only [joinPath,foldl_cons] at hrest ⊢
    rw [hrest,hstep]
    cases p <;> simp [intercalate_cons_cons]

variable {p : List String}

theorem joinPath_root (hp : IsPath p) :
    (joinPath "" p).toList=['/'].intercalate (p.map String.toList) := by
  rcases p with _ | ⟨seg,p⟩
  · exact absurd rfl hp.ne_nil
  · have hseg:=joinPath_toList seg p (hp.segments seg (.head _)).1
    simpa [joinPath,joinStep] using hseg

theorem splitPath_joinPath (hp : IsPath p) : splitPath (joinPath "" p)=p := by
  have hjoin : joinPath "" p=String.intercalate "/" p := by
    rw [← String.toList_inj,joinPath_root hp]
    simp
  rw [hjoin]
  exact Framing.segments_intercalate hp.ne_nil fun seg hseg => (hp.segments seg hseg).2

theorem isPath_splitPath {k} (h : ∀ seg∈splitPath k,seg ≠ "") : IsPath (splitPath k) := by
  constructor
  · unfold splitPath
    simp
  · intro seg hseg
    refine ⟨h seg hseg,?_⟩
    obtain ⟨l,hl,rfl⟩ := mem_map.mp hseg
    rw [String.toList_ofList]
    exact Framing.slash_notMem_splitOn k.toList l hl

theorem joinPath_splitPath {k} (h : ∀ seg∈splitPath k,seg ≠ "") : joinPath "" (splitPath k)=k := by
  apply String.toList_inj.mp
  rw [joinPath_root (isPath_splitPath h),splitPath,map_map]
  have hid : (List.splitOn '/' k.toList).map (String.toList ∘ String.ofList)=
      List.splitOn '/' k.toList := by
    simp [Function.comp_def]
  rw [hid,intercalate_splitOn]

variable {pre : String}

theorem joinPath_first (hp : IsPath p) (h : pre ≠ "") :
    (joinPath pre p).toList=pre.toList ++ '/'::(joinPath "" p).toList := by
  rw [joinPath_toList pre p h,joinPath_root hp]
  rcases p with _ | ⟨seg,p⟩
  · exact absurd rfl hp.ne_nil
  · simp [intercalate_cons_cons]

theorem joinPath_inj {q} (hp : IsPath p) (hq : IsPath q) (h : joinPath pre p=joinPath pre q) :
    p=q := by
  have hroot : joinPath "" p=joinPath "" q := by
    by_cases hpre : pre = ""
    · rwa [hpre] at h
    · have hlist:=congrArg String.toList h
      rw [joinPath_first hp hpre,joinPath_first hq hpre] at hlist
      exact String.toList_inj.mp (List.cons.inj (append_cancel_left hlist)).2
  rw [← splitPath_joinPath hp,← splitPath_joinPath hq,hroot]

theorem trimEndSlash_row (pre name : String) (hne : name ≠ "") (hslash : '/'∉name.toList) :
    trimEndSlash (joinStep pre (name ++ "/"))=joinStep pre name := by
  have hrel : (joinStep pre (name ++ "/")).toList=(joinStep pre name).toList++['/'] := by
    by_cases hpre : pre = ""
    · simp [hpre,joinStep]
    · simp [hpre,joinStep,toString]
  have hlast : ∃ init c,(joinStep pre name).toList=init++[c] ∧ c ≠ '/' := by
    have hname : name.toList≠[] := by
      simpa using hne
    obtain ⟨init,c,hc⟩ : ∃ init c,name.toList=init++[c] :=
      ⟨_,_,(dropLast_append_getLast hname).symm⟩
    have hcs : c ≠ '/' := by
      rintro rfl
      exact hslash (by simp [hc])
    by_cases hpre : pre = ""
    · exact ⟨init,c,by simp [joinStep,hpre,hc],hcs⟩
    · refine ⟨pre.toList ++ '/'::init,c,?_,hcs⟩
      rw [joinStep_toList pre name hpre,hc]
      simp
  obtain ⟨init,c,hinit,hc⟩ := hlast
  unfold trimEndSlash
  rw [hrel,hinit]
  apply String.toList_inj.mp
  rw [String.toList_ofList,hinit]
  simp [hc]

structure IsBucket (depth : ℕ) (entries : List (List String × TreeEntry)) : Prop where
  paths : ∀ p e,(p,e)∈entries → IsPath p ∧ p.length≤depth
  single : ∀ p e e',(p,e)∈entries → (p,e')∈entries → e=e'

theorem mem_subEntries (entries name q e) :
    (q,e)∈subEntries entries name ↔ q≠[] ∧ (name::q,e)∈entries := by
  simp only [subEntries,mem_filterMap,Prod.exists]
  constructor
  · rintro ⟨_ | ⟨first,_ | ⟨second,rest⟩⟩,e',hmem,hsome⟩
    · simp at hsome
    · simp at hsome
    · simp only [Option.ite_none_right_eq_some,Option.some.injEq,Prod.mk.injEq] at hsome
      obtain ⟨rfl,rfl,rfl⟩ := hsome
      exact ⟨cons_ne_nil _ _,hmem⟩
  · rintro ⟨hq,hmem⟩
    obtain ⟨second,rest,rfl⟩ := exists_cons_of_ne_nil hq
    exact ⟨name::second::rest,e,hmem,by simp⟩

theorem mem_subNames (entries name) :
    name∈subNames entries ↔ ∃ q e,(q,e)∈subEntries entries name := by
  simp only [subNames,Std.ExtTreeSet.mem_toList,Std.ExtTreeSet.mem_ofList,contains_iff_mem,
    mem_filterMap,mem_subEntries,Prod.exists]
  constructor
  · rintro ⟨_ | ⟨first,_ | ⟨second,rest⟩⟩,e,hmem,hsome⟩
    · simp at hsome
    · simp at hsome
    · obtain rfl := Option.some.inj hsome
      exact ⟨second::rest,e,cons_ne_nil _ _,hmem⟩
  · rintro ⟨q,e,hq,hmem⟩
    obtain ⟨second,rest,rfl⟩ := exists_cons_of_ne_nil hq
    exact ⟨name::second::rest,e,hmem,rfl⟩

theorem mem_leafRows (entries row) : row∈leafRows entries ↔
      ∃ name e,([name],e)∈entries ∧ row=(name,e.mode.asStr,hex e.id) := by
  simp only [leafRows,mem_filterMap,Prod.exists]
  constructor
  · rintro ⟨_ | ⟨name,_ | ⟨second,rest⟩⟩,e,hmem,hsome⟩
    · simp at hsome
    · exact ⟨name,e,hmem,(Option.some.inj hsome).symm⟩
    · simp at hsome
  · rintro ⟨name,e,hmem,rfl⟩
    exact ⟨[name],e,hmem,rfl⟩

section
variable {depth : ℕ} {entries : List (List String × TreeEntry)}

theorem isBucket_sub (name : String) (h : IsBucket (depth+1) entries) :
    IsBucket depth (subEntries entries name) := by
  constructor
  · intro q e hq
    obtain ⟨hne,hmem⟩ := (mem_subEntries entries name q e).mp hq
    obtain ⟨hpath,hlen⟩ := h.paths (name::q) e hmem
    refine ⟨⟨hne,fun seg hseg => hpath.segments seg (.tail _ hseg)⟩,?_⟩
    simpa using hlen
  · intro q e e' hq hq'
    exact h.single (name::q) e e' ((mem_subEntries entries name q e).mp hq).2
      ((mem_subEntries entries name q e').mp hq').2

theorem IsBucket.pos (h : IsBucket depth entries) (hne : entries≠[]) : ∃ k,depth=k+1 := by
  obtain ⟨⟨p,e⟩,hmem⟩ := exists_mem_of_ne_nil entries hne
  obtain ⟨hpath,hlen⟩ := h.paths p e hmem
  have hpos:=length_pos_iff.mpr hpath.ne_nil
  exact ⟨depth-1,by omega⟩

theorem isBucket_zero (h : IsBucket 0 entries) : entries=[] := by
  by_contra hne
  obtain ⟨k,hk⟩ := h.pos hne
  omega

theorem subNames_isPath {name} (h : IsBucket depth entries) (hname : name∈subNames entries) :
    name ≠ "" ∧ '/'∉name.toList := by
  obtain ⟨q,e,hq⟩ := (mem_subNames entries name).mp hname
  have hmem:=((mem_subEntries entries name q e).mp hq).2
  exact (h.paths (name::q) e hmem).1.segments name (.head _)

variable (sdk : Sdk)

def subRow (name : String) (id : ObjectId) : String × String × String := (name ++ "/","tree",hex id)

def treeBody (rows : List (String × String × String)) : Bytes :=
  sdk.treeObjectJson ⟨2,rows.insertionSort fun a b => rowLe a b⟩

def bucketBody : ℕ → List (List String × TreeEntry) → Bytes
  | 0,entries => treeBody sdk (leafRows entries)
  | depth+1,entries =>
    treeBody sdk ((subNames entries).map (fun name =>
      subRow name (treeBodyAddress sdk (bucketBody depth (subEntries entries name))))++
      leafRows entries)

def bucketId (depth : ℕ) (entries : List (List String × TreeEntry)) : ObjectId :=
  treeBodyAddress sdk (bucketBody sdk depth entries)

def bucketBodies : ℕ → List (List String × TreeEntry) → List Bytes
  | 0,entries => [bucketBody sdk 0 entries]
  | depth+1,entries =>
    bucketBody sdk (depth+1) entries::
      (subNames entries).flatMap fun name => bucketBodies depth (subEntries entries name)

def bucketRows (depth : ℕ) (entries : List (List String × TreeEntry)) :
    List (String × String × String) :=
  (subNames entries).map (fun name =>
    subRow name (bucketId sdk (depth-1) (subEntries entries name)))++leafRows entries

theorem bucketBody_eq (h : IsBucket depth entries) :
    bucketBody sdk depth entries=treeBody sdk (bucketRows sdk depth entries) := by
  cases depth with
  | zero =>
    rw [isBucket_zero h]
    rfl
  | succ depth => rfl

theorem bucketBody_mem (depth entries) :
    bucketBody sdk depth entries∈bucketBodies sdk depth entries := by
  cases depth <;> simp [bucketBodies]

theorem bucketBodies_sub {name} (hname : name∈subNames entries) {body}
    (h : body∈bucketBodies sdk depth (subEntries entries name)) :
    body∈bucketBodies sdk (depth+1) entries := by
  rw [bucketBodies,mem_cons,mem_flatMap]
  exact .inr ⟨name,hname,h⟩

/-- The JSON of a tree object is read back. -/
structure TreeJson : Prop where
  parses : ∀ obj,sdk.parseTreeObject (sdk.treeObjectJson obj)=.ok obj
  version : ∀ obj,sdk.jsonVersion (sdk.treeObjectJson obj)=.ok (some obj.v)

def Encrypts : Prop := ∀ body,∃ env,sdk.encrypt body=.ok env

/-- Every body is encrypted, but an envelope with more than `MAX_PAYLOAD_LEN` bytes of
payload is refused when it is opened. -/
structure TreeCodec : Prop extends TreeJson sdk where
  encrypts : Encrypts sdk
  opens : ∀ body env,sdk.encrypt body=.ok env → env.length ≤ maxEnvelopeLen →
    sdk.decrypt env=.ok body
  refuses : ∀ env : Bytes,maxEnvelopeLen<env.length → ∃ e,sdk.decrypt env=.error e

def Fits (body : Bytes) : Prop := ∀ env,sdk.encrypt body=.ok env → env.length ≤ maxEnvelopeLen

structure Wrote (bodies : List Bytes) (s s' : Store) : Prop where
  there : ∀ b∈bodies,∃ b'∈bodies,treeBodyAddress sdk b'=treeBodyAddress sdk b ∧
    ∃ env,sdk.encrypt b'=.ok env ∧ s'.objects[treeBodyAddress sdk b]? = some env
  other : ∀ id,(∀ b∈bodies,treeBodyAddress sdk b≠id) → s'.objects[id]? = s.objects[id]?

theorem wrote_nil (s : Store) : Wrote sdk [] s s := ⟨by simp,fun _ _ => rfl⟩

theorem wrote_append {as bs s t u} (has : Wrote sdk as s t) (hbs : Wrote sdk bs t u) :
    Wrote sdk (as++bs) s u := by
  constructor
  · intro b hb
    by_cases hlate : ∃ c∈bs,treeBodyAddress sdk c=treeBodyAddress sdk b
    · obtain ⟨c,hc,haddr⟩ := hlate
      obtain ⟨b',hb',haddr',env,henc,hget⟩ := hbs.there c hc
      rw [haddr] at haddr' hget
      exact ⟨b',mem_append_right _ hb',haddr',env,henc,hget⟩
    · have hnot : ∀ c∈bs,treeBodyAddress sdk c≠treeBodyAddress sdk b :=
        fun c hc heq => hlate ⟨c,hc,heq⟩
      have hearly : b∈as := by
        rcases mem_append.mp hb with h | h
        · exact h
        · exact absurd rfl (hnot b h)
      obtain ⟨b',hb',haddr,env,henc,hget⟩ := has.there b hearly
      exact ⟨b',mem_append_left _ hb',haddr,env,henc,(hbs.other _ hnot).trans hget⟩
  · intro id hid
    have hlate:=hbs.other id fun b hb => hid b (mem_append_right _ hb)
    have hearly:=has.other id fun b hb => hid b (mem_append_left _ hb)
    rw [hlate,hearly]

theorem wrote_perm {as bs s t} (h : ∀ b,b∈as ↔ b∈bs) (has : Wrote sdk as s t) :
    Wrote sdk bs s t := by
  constructor
  · intro b hb
    obtain ⟨b',hb',hrest⟩ := has.there b ((h b).mpr hb)
    exact ⟨b',(h b').mp hb',hrest⟩
  · intro id hid
    exact has.other id fun b hb => hid b ((h b).mp hb)

theorem writeTreeObject_run (hencrypts : Encrypts sdk) (rows s) : ∃ s',writeTreeObject sdk rows s=
        some (.ok (treeBodyAddress sdk (treeBody sdk rows)),s') ∧
      Wrote sdk [treeBody sdk rows] s s' := by
  obtain ⟨env,henc⟩ := hencrypts (treeBody sdk rows)
  refine ⟨{ s with objects := s.objects.insert (treeBodyAddress sdk (treeBody sdk rows)) env },
    ?_,?_,?_⟩
  · have henc':=henc
    unfold treeBody at henc'
    simp [writeTreeObject,putRaw,henc',treeBody]
  · intro b hb
    rw [mem_singleton.mp hb]
    exact ⟨treeBody sdk rows,mem_singleton.mpr rfl,rfl,env,henc,by simp⟩
  · intro id hid
    have hne:=hid (treeBody sdk rows) (mem_singleton.mpr rfl)
    simp [Std.ExtTreeMap.getElem?_insert,hne]

theorem rowsOfSubs_run {write : String → Command Store String ObjectId}
    {id : String → ObjectId} {bodies : String → List Bytes}
    (hwrite : ∀ name s,∃ s',write name s=some (.ok (id name),s') ∧
      Wrote sdk (bodies name) s s') (names : List String) (s : Store) :
    ∃ s',rowsOfSubs write names s=some (.ok (names.map fun name => subRow name (id name)),s') ∧
      Wrote sdk (names.flatMap bodies) s s' := by
  induction names generalizing s with
  | nil => exact ⟨s,rfl,wrote_nil sdk s⟩
  | cons name names ih =>
    obtain ⟨t,hname,hwrote⟩ := hwrite name s
    obtain ⟨u,hnames,hwrotes⟩ := ih t
    refine ⟨u,?_,?_⟩
    · simp [rowsOfSubs,hname,hnames,subRow]
    · rw [flatMap_cons]
      exact wrote_append sdk hwrote hwrotes

theorem writeTreeBucket_run (hencrypts : Encrypts sdk) (depth entries s) :
    ∃ s',writeTreeBucket sdk depth entries s=some (.ok (bucketId sdk depth entries),s') ∧
      Wrote sdk (bucketBodies sdk depth entries) s s' := by
  induction depth generalizing entries s with
  | zero => exact writeTreeObject_run sdk hencrypts (leafRows entries) s
  | succ depth ih =>
    obtain ⟨t,hsubs,hwrote⟩ := rowsOfSubs_run sdk
      (fun name s => ih (subEntries entries name) s) (subNames entries) s
    obtain ⟨u,hobject,hwrote'⟩ := writeTreeObject_run sdk hencrypts
      ((subNames entries).map (fun name =>
        subRow name (bucketId sdk depth (subEntries entries name)))++leafRows entries) t
    refine ⟨u,?_,?_⟩
    · simp only [writeTreeBucket,Command.bind_apply,hsubs,hobject]
      rfl
    · refine wrote_perm sdk ?_ (wrote_append sdk hwrote hwrote')
      intro b
      rw [bucketBodies,mem_append,mem_singleton,mem_cons,or_comm]
      rfl

def DistinctAddresses (bodies : List Bytes) : Prop := Set.InjOn (treeBodyAddress sdk) {b | b∈bodies}

theorem asStr_ne_tree (mode : FileMode) : mode.asStr ≠ "tree" := by
  cases mode <;> decide

theorem append_slash_inj {a b} (h : a ++ "/"=b ++ "/") : a=b := by
  have hlist:=congrArg String.toList h
  rw [String.toList_append,String.toList_append] at hlist
  exact String.toList_inj.mp (append_cancel_right hlist)

structure Adds (pre : String) (G : List String → TreeEntry → Prop) (out out' : Entries) : Prop where
  there : ∀ p e,G p e → out'[joinPath pre p]? = some e
  other : ∀ k,(∀ p e,G p e → joinPath pre p≠k) → out'[k]? = out[k]?

variable {subtree : ObjectId → String → Entries → Option (Except String Entries)}

theorem flattenRows_cons (row rows out out') :
    flattenRows subtree pre (row::rows) out=some (.ok out') ↔
      ∃ mid,flattenRows subtree pre [row] out=some (.ok mid) ∧
        flattenRows subtree pre rows mid=some (.ok out') := by
  obtain ⟨name,kind,hexid⟩ := row
  simp only [flattenRows]
  rcases idFromHexStr hexid with e | id
  · simp
  by_cases hkind : kind = "tree"
  · simp only [hkind,if_true]
    split <;> simp
  · simp only [hkind,if_false]
    cases FileMode.fromName kind <;> simp

theorem flattenRows_each {rows out out'} (h : flattenRows subtree pre rows out=some (.ok out')) :
    ∀ row∈rows,∃ mid mid',flattenRows subtree pre [row] mid=some (.ok mid') := by
  induction rows generalizing out with
  | nil => simp
  | cons row rows ih =>
    obtain ⟨mid,hrow,hrows⟩ := (flattenRows_cons row rows out out').mp h
    exact forall_mem_cons.mpr ⟨⟨out,mid,hrow⟩,ih hrows⟩

/-- Rows that each add their entries add them all together, as long as no two of the
entries meet under one path with different contents. -/
theorem flattenRows_adds {rows} {G : (String × String × String) → List String → TreeEntry → Prop}
    (hrow : ∀ row∈rows,∀ out,∃ out',flattenRows subtree pre [row] out=some (.ok out') ∧
      Adds pre (G row) out out')
    (hsame : ∀ row∈rows,∀ row'∈rows,∀ p e p' e',G row p e → G row' p' e' →
      joinPath pre p=joinPath pre p' → e=e') (out) :
    ∃ out',flattenRows subtree pre rows out=some (.ok out') ∧
      Adds pre (fun p e => ∃ row∈rows,G row p e) out out' := by
  induction rows generalizing out with
  | nil => exact ⟨out,rfl,⟨by simp,fun _ _ => rfl⟩⟩
  | cons row rows ih =>
    obtain ⟨mid,hmid,hadds⟩ := hrow row (.head _) out
    obtain ⟨out',hout,hrest⟩ := ih (fun r hr => hrow r (.tail _ hr))
      (fun r hr r' hr' => hsame r (.tail _ hr) r' (.tail _ hr')) mid
    refine ⟨out',(flattenRows_cons row rows out out').mpr ⟨mid,hmid,hout⟩,?_,?_⟩
    · rintro p e ⟨r,hr,hG⟩
      by_cases hlater : ∃ p' e',(∃ r'∈rows,G r' p' e') ∧ joinPath pre p'=joinPath pre p
      · obtain ⟨p',e',⟨r',hr',hG'⟩,hkey⟩ := hlater
        have he : e'=e := hsame r' (.tail _ hr') r hr p' e' p e hG' hG hkey
        rw [← hkey,← he]
        exact hrest.there p' e' ⟨r',hr',hG'⟩
      · have hkeep : out'[joinPath pre p]? = mid[joinPath pre p]? :=
          hrest.other _ fun p' e' hp' hkey => hlater ⟨p',e',hp',hkey⟩
        rw [hkeep]
        rcases mem_cons.mp hr with rfl | hr
        · exact hadds.there p e hG
        · exact absurd ⟨p,e,⟨r,hr,hG⟩,rfl⟩ hlater
    · intro k hk
      have hlate:=hrest.other k fun p e ⟨r,hr,hG⟩ => hk p e ⟨r,.tail _ hr,hG⟩
      have hfirst:=hadds.other k fun p e hG => hk p e ⟨row,.head _,hG⟩
      rw [hlate,hfirst]

theorem flattenRows_leaf (subtree : ObjectId → String → Entries → Option (Except String Entries))
    (pre name : String) (e : TreeEntry) (out : Entries) :
    flattenRows subtree pre [(name,e.mode.asStr,hex e.id)] out=
      some (.ok (out.insert (joinStep pre name) e)) := by
  have hmode : FileMode.fromName e.mode.asStr=.ok e.mode := by
    cases e.mode <;> rfl
  simp only [flattenRows,idFromHexStr_hex,asStr_ne_tree,if_false,hmode]
  rfl

theorem flattenRows_sub {name} (id out out') (hne : name ≠ "") (hslash : '/'∉name.toList) :
    flattenRows subtree pre [subRow name id] out=some (.ok out') ↔
      subtree id (joinStep pre name) out=some (.ok out') := by
  have htrim:=trimEndSlash_row pre name hne hslash
  simp only [joinStep] at htrim ⊢
  simp only [flattenRows,subRow,idFromHexStr_hex,if_true,htrim]
  split <;> simp_all

/-- The entries that a row of a bucket stands for. -/
def StandsFor (depth : ℕ) (entries : List (List String × TreeEntry))
    (row : String × String × String) (p : List String) (e : TreeEntry) : Prop :=
  (p,e)∈entries ∧ ((∃ name,p=[name] ∧ row=(name,e.mode.asStr,hex e.id)) ∨
    ∃ name q,p=name::q ∧ q≠[] ∧ row=subRow name (bucketId sdk (depth-1) (subEntries entries name)))

theorem exists_row (hb : IsBucket depth entries) {p e} (hin : (p,e)∈entries) :
    ∃ row∈bucketRows sdk depth entries,StandsFor sdk depth entries row p e := by
  obtain ⟨hpath,-⟩ := hb.paths p e hin
  rcases p with _ | ⟨name,q⟩
  · exact absurd rfl hpath.ne_nil
  cases q with
  | nil =>
    refine ⟨(name,e.mode.asStr,hex e.id),mem_append_right _ ?_,hin,.inl ⟨name,rfl,rfl⟩⟩
    exact (mem_leafRows entries _).mpr ⟨name,e,hin,rfl⟩
  | cons second rest =>
    have hsub : (second::rest,e)∈subEntries entries name :=
      (mem_subEntries entries name _ e).mpr ⟨cons_ne_nil _ _,hin⟩
    have hname : name∈subNames entries := (mem_subNames entries name).mpr ⟨_,e,hsub⟩
    exact ⟨_,mem_append_left _ (mem_map.mpr ⟨name,hname,rfl⟩),
      hin,.inr ⟨name,second::rest,rfl,cons_ne_nil _ _,rfl⟩⟩

theorem subRow_adds {name out out'} (hadds : Adds (joinStep pre name)
      (fun q e => (q,e)∈subEntries entries name) out out') :
    Adds pre (StandsFor sdk depth entries
      (subRow name (bucketId sdk (depth-1) (subEntries entries name)))) out out' := by
  constructor
  · rintro p e ⟨hin,⟨name',-,hrow⟩ | ⟨name',q,rfl,hq,hrow⟩⟩
    · simp only [subRow,Prod.mk.injEq] at hrow
      exact absurd hrow.2.1.symm (asStr_ne_tree e.mode)
    simp only [subRow,Prod.mk.injEq] at hrow
    have hname':=append_slash_inj hrow.1
    rw [← hname'] at hin ⊢
    exact hadds.there q e ((mem_subEntries entries name q e).mpr ⟨hq,hin⟩)
  · intro k hk
    apply hadds.other k
    intro q e hq
    obtain ⟨hqne,hin⟩ := (mem_subEntries entries name q e).mp hq
    exact hk (name::q) e ⟨hin,.inr ⟨name,q,rfl,hqne,rfl⟩⟩

theorem leafRow_adds (hb : IsBucket depth entries) {name e} (hin : ([name],e)∈entries) (out) :
    Adds pre (StandsFor sdk depth entries (name,e.mode.asStr,hex e.id)) out
      (out.insert (joinStep pre name) e) := by
  constructor
  · rintro p e' ⟨hin',⟨name',rfl,hrow⟩ | ⟨name',q,rfl,hq,hrow⟩⟩
    · simp only [Prod.mk.injEq] at hrow
      obtain ⟨rfl,-,-⟩ := hrow
      rw [hb.single [name] e e' hin hin']
      simp [joinPath]
    · simp only [subRow,Prod.mk.injEq] at hrow
      exact absurd hrow.2.1 (asStr_ne_tree e.mode)
  · intro k hk
    have hne : joinStep pre name≠k := hk [name] e ⟨hin,.inl ⟨name,rfl,rfl⟩⟩
    simp [Std.ExtTreeMap.getElem?_insert,hne]

theorem bucketRows_adds (subtree : ObjectId → String → Entries → Option (Except String Entries))
    (hb : IsBucket depth entries) (hsubtree : ∀ name∈subNames entries,∀ pre out,∃ out',
      subtree (bucketId sdk (depth-1) (subEntries entries name)) pre out=some (.ok out') ∧
        Adds pre (fun q e => (q,e)∈subEntries entries name) out out') (rows)
    (hrows : ∀ row,row∈rows ↔ row∈bucketRows sdk depth entries) (pre out) :
    ∃ out',flattenRows subtree pre rows out=some (.ok out') ∧
      Adds pre (fun p e => (p,e)∈entries) out out' := by
  have hsame : ∀ row∈rows,∀ row'∈rows,∀ p e p' e',StandsFor sdk depth entries row p e →
      StandsFor sdk depth entries row' p' e' → joinPath pre p=joinPath pre p' → e=e' := by
    intro row _ row' _ p e p' e' hfor hfor' hkey
    have hpath : p=p' := joinPath_inj (hb.paths p e hfor.1).1 (hb.paths p' e' hfor'.1).1 hkey
    rw [← hpath] at hfor'
    exact hb.single p e e' hfor.1 hfor'.1
  have hrow : ∀ row∈rows,∀ out,∃ out',flattenRows subtree pre [row] out=some (.ok out') ∧
      Adds pre (StandsFor sdk depth entries row) out out' := by
    intro row hmem out
    rcases mem_append.mp ((hrows row).mp hmem) with hsub | hleaf
    · obtain ⟨name,hname,rfl⟩ := mem_map.mp hsub
      obtain ⟨hne,hslash⟩ := subNames_isPath hb hname
      obtain ⟨out',hout,hadds⟩ := hsubtree name hname (joinStep pre name) out
      exact ⟨out',(flattenRows_sub _ _ _ hne hslash).mpr hout,subRow_adds sdk hadds⟩
    · obtain ⟨name,e,hin,rfl⟩ := (mem_leafRows entries row).mp hleaf
      exact ⟨_,flattenRows_leaf subtree pre name e out,leafRow_adds sdk hb hin out⟩
  obtain ⟨out',hout,hadds⟩ := flattenRows_adds hrow hsame out
  refine ⟨out',hout,fun p e hin => ?_,fun k hk => ?_⟩
  · obtain ⟨row,hmem,hfor⟩ := exists_row sdk hb hin
    exact hadds.there p e ⟨row,(hrows row).mpr hmem,hfor⟩
  · exact hadds.other k fun p e ⟨_,_,hfor⟩ => hk p e hfor.1

def Reads (s : Store) (bodies : List Bytes) : Prop :=
  ∀ b∈bodies,s.read sdk (treeBodyAddress sdk b)=.ok b

def Holds (s : Store) (bodies : List Bytes) : Prop :=
  ∀ b∈bodies,∃ env,sdk.encrypt b=.ok env ∧ s.objects[treeBodyAddress sdk b]? = some env

theorem read_eq_decrypt {s : Store} {id : ObjectId} {env} (h : s.objects[id]? = some env) :
    s.read sdk id=sdk.decrypt env := by
  simp only [Store.read,h]

theorem reads_of_fit (hcodec : TreeCodec sdk) {s bodies} (hholds : Holds sdk s bodies)
    (hfits : ∀ b∈bodies,Fits sdk b) : Reads sdk s bodies := by
  intro b hb
  obtain ⟨env,henc,hget⟩ := hholds b hb
  rw [read_eq_decrypt sdk hget]
  exact hcodec.opens b env henc (hfits b hb env henc)

/-- An object that can be read fits its envelope, and it is the body that was stored. -/
theorem fits_of_read (hcodec : TreeCodec sdk) {s bodies} (hholds : Holds sdk s bodies) {b bytes}
    (hb : b∈bodies) (hread : s.read sdk (treeBodyAddress sdk b)=.ok bytes) :
    Fits sdk b ∧ bytes=b := by
  obtain ⟨env,henc,hget⟩ := hholds b hb
  rw [read_eq_decrypt sdk hget] at hread
  have hlen : env.length ≤ maxEnvelopeLen := by
    by_contra hlong
    obtain ⟨e,he⟩ := hcodec.refuses env (Nat.lt_of_not_le hlong)
    rw [he] at hread
    cases hread
  rw [hcodec.opens b env henc hlen,Except.ok.injEq] at hread
  refine ⟨fun env' henc' => ?_,hread.symm⟩
  rw [henc,Except.ok.injEq] at henc'
  exact henc' ▸ hlen

theorem read_bucket {s} (hb : IsBucket depth entries)
    (hreads : Reads sdk s (bucketBodies sdk depth entries)) :
    s.read sdk (bucketId sdk depth entries)= .ok (treeBody sdk (bucketRows sdk depth entries)) := by
  rw [← bucketBody_eq sdk hb]
  exact hreads _ (bucketBody_mem sdk depth entries)

theorem readSubtree_adds (hjson : TreeJson sdk) (s : Store) (n depth entries)
    (hb : IsBucket depth entries) (hne : n=0 → entries≠[]) (hn : depth≤n)
    (hreads : Reads sdk s (bucketBodies sdk depth entries)) (pre out) :
    ∃ out',s.readSubtree sdk n (bucketId sdk depth entries) pre out=some (.ok out') ∧
      Adds pre (fun p e => (p,e)∈entries) out out' := by
  induction n generalizing depth entries pre out with
  | zero =>
    have hzero : depth=0 := by omega
    subst hzero
    exact absurd (isBucket_zero hb) (hne rfl)
  | succ n ih =>
    simp only [readSubtree,read_bucket sdk hb hreads,treeBody,hjson.parses]
    apply bucketRows_adds sdk (s.readSubtree sdk n) hb
    · intro name hname pre out
      obtain ⟨q,e,hq⟩ := (mem_subNames entries name).mp hname
      have hin:=((mem_subEntries entries name q e).mp hq).2
      obtain ⟨depth,rfl⟩ := hb.pos (ne_nil_of_mem hin)
      exact ih depth (subEntries entries name) (isBucket_sub name hb)
        (fun _ => ne_nil_of_mem hq) (by omega)
        (fun b hbody => hreads b (bucketBodies_sub sdk hname hbody)) pre out
    · intro row
      exact (perm_insertionSort _ _).mem_iff

theorem readSubtree_fits (hcodec : TreeCodec sdk) (s : Store) (n depth entries)
    (hb : IsBucket depth entries) (hholds : Holds sdk s (bucketBodies sdk depth entries))
    (pre out out')
    (h : s.readSubtree sdk n (bucketId sdk depth entries) pre out=some (.ok out')) :
    ∀ b∈bucketBodies sdk depth entries,Fits sdk b := by
  induction n generalizing depth entries pre out out' with
  | zero => cases h
  | succ n ih =>
    rcases hread : s.read sdk (bucketId sdk depth entries) with e | bytes
    · simp [readSubtree,hread] at h
    obtain ⟨hroot,rfl⟩ := fits_of_read sdk hcodec hholds (bucketBody_mem sdk depth entries) hread
    simp only [readSubtree,hread,bucketBody_eq sdk hb,treeBody,hcodec.parses] at h
    cases depth with
    | zero => simpa [bucketBodies] using hroot
    | succ depth =>
      simp only [bucketBodies,forall_mem_cons,mem_flatMap,forall_exists_index,and_imp]
      refine ⟨hroot,fun b name hname hbody => ?_⟩
      have hrow : subRow name (bucketId sdk depth (subEntries entries name))∈
          bucketRows sdk (depth+1) entries := mem_append_left _ (mem_map.mpr ⟨name,hname,rfl⟩)
      obtain ⟨mid,mid',hmid⟩ := flattenRows_each h _ ((perm_insertionSort _ _).mem_iff.mpr hrow)
      obtain ⟨hne,hslash⟩ := subNames_isPath hb hname
      exact ih depth (subEntries entries name) (isBucket_sub name hb)
        (fun b hb => hholds b (bucketBodies_sub sdk hname hb)) _ _ _
        ((flattenRows_sub _ _ _ hne hslash).mp hmid) b hbody

/-- What an id is read as tells the entries it was made of. -/
theorem entries_of_id_eq (hjson : TreeJson sdk) {s depth' entries'} (hb : IsBucket depth entries)
    (hb' : IsBucket depth' entries') (hne : entries'≠[])
    (hreads : Reads sdk s (bucketBodies sdk depth entries))
    (hreads' : Reads sdk s (bucketBodies sdk depth' entries'))
    (h : bucketId sdk depth entries=bucketId sdk depth' entries') {e} (hmem : (p,e)∈entries) :
    (p,e)∈entries' := by
  obtain ⟨out,hout,hadds⟩ := readSubtree_adds sdk hjson s (max depth depth') depth entries hb
    (fun _ => ne_nil_of_mem hmem) (Nat.le_max_left ..) hreads "" ∅
  obtain ⟨out',hout',hadds'⟩ := readSubtree_adds sdk hjson s (max depth depth') depth' entries'
    hb' (fun _ => hne) (Nat.le_max_right ..) hreads' "" ∅
  rw [h,hout',Option.some.injEq,Except.ok.injEq] at hout
  have hthere:=hadds.there p e hmem
  rw [← hout] at hthere
  by_contra hnot
  have hnone:=hadds'.other (joinPath "" p) fun q e' hq hkey => by
    have hpath:=joinPath_inj (hb'.paths q e' hq).1 (hb.paths p e hmem).1 hkey
    have hsame:=hadds'.there q e' hq
    rw [hpath,hthere,Option.some.injEq] at hsame
    exact hnot (hsame ▸ hpath ▸ hq)
  rw [hthere] at hnone
  simp at hnone

theorem nested_ids (hjson : TreeJson sdk) (s n depth entries) (hb : IsBucket depth entries)
    (hreads : Reads sdk s (bucketBodies sdk depth entries))
    (hmax : ∀ p e,(p,e)∈entries → p.length≤n) (hlong : ∃ p e,(p,e)∈entries ∧ p.length=n) :
    ∃ ids : List ObjectId,ids.length=n ∧ ids.Nodup ∧ ∀ id∈ids,∃ k sub,
      id=bucketId sdk k sub ∧ IsBucket k sub ∧ sub≠[] ∧ (∀ p e,(p,e)∈sub → p.length≤n) ∧
        Reads sdk s (bucketBodies sdk k sub) := by
  induction n generalizing depth entries with
  | zero => exact ⟨[],rfl,nodup_nil,by simp⟩
  | succ n ih =>
    obtain ⟨p,e,hmem,hlen⟩ := hlong
    have hne:=ne_nil_of_mem hmem
    by_cases hn : n=0
    · subst hn
      refine ⟨[bucketId sdk depth entries],rfl,nodup_singleton _,?_⟩
      intro id hid
      rw [mem_singleton.mp hid]
      exact ⟨depth,entries,rfl,hb,hne,hmax,hreads⟩
    · -- go down the longest path
      rcases p with _ | ⟨name,q⟩
      · simp at hlen
      simp only [length_cons,Nat.add_right_cancel_iff] at hlen
      have hq : q≠[] := fun hnil => hn (by simpa [hnil] using hlen.symm)
      have hsub : (q,e)∈subEntries entries name := (mem_subEntries entries name q e).mpr ⟨hq,hmem⟩
      have hname : name∈subNames entries := (mem_subNames entries name).mpr ⟨q,e,hsub⟩
      obtain ⟨depth,rfl⟩ := hb.pos hne
      obtain ⟨ids,hcount,hnodup,hids⟩ := ih depth (subEntries entries name) (isBucket_sub name hb)
        (fun b hbody => hreads b (bucketBodies_sub sdk hname hbody))
        (fun r e' hr => by
          have hle:=hmax (name::r) e' ((mem_subEntries entries name r e').mp hr).2
          simpa using hle)
        ⟨q,e,hsub,hlen⟩
      refine ⟨bucketId sdk (depth+1) entries::ids,by simp [hcount],?_,?_⟩
      · refine nodup_cons.mpr ⟨fun hin => ?_,hnodup⟩
        obtain ⟨k,sub,hid,hsubB,hsubne,hshort,hsubreads⟩ := hids _ hin
        have hin':=entries_of_id_eq sdk hjson hb hsubB hsubne hreads hsubreads hid hmem
        have hle:=hshort (name::q) e hin'
        simp only [length_cons] at hle
        omega
      · intro id hid
        rcases mem_cons.mp hid with rfl | hid
        · exact ⟨depth+1,entries,rfl,hb,hne,hmax,hreads⟩
        · obtain ⟨k,sub,heq,hsubB,hsubne,hshort,hsubreads⟩ := hids id hid
          exact ⟨k,sub,heq,hsubB,hsubne,
            fun r e' hr => (hshort r e' hr).trans (Nat.le_succ n),hsubreads⟩

theorem depth_le_size (hjson : TreeJson sdk) {s n} (hb : IsBucket depth entries)
    (hreads : Reads sdk s (bucketBodies sdk depth entries))
    (hmax : ∀ p e,(p,e)∈entries → p.length≤n) (hlong : ∃ p e,(p,e)∈entries ∧ p.length=n) :
    n ≤ s.objects.size := by
  obtain ⟨ids,hcount,hnodup,hids⟩ := nested_ids sdk hjson s n depth entries hb hreads hmax hlong
  have hsubset : ids ⊆ s.objects.keys := by
    intro id hid
    obtain ⟨k,sub,rfl,-,-,-,hsubreads⟩ := hids id hid
    have hread:=hsubreads _ (bucketBody_mem sdk k sub)
    rw [Std.ExtTreeMap.mem_keys,Std.ExtTreeMap.mem_iff_isSome_getElem?]
    unfold Store.read at hread
    unfold bucketId
    rcases hget : s.objects[treeBodyAddress sdk (bucketBody sdk k sub)]? with - | bytes
    · simp [hget] at hread
    · rfl
  rw [← hcount,← Std.ExtTreeMap.length_keys]
  exact (hnodup.subperm hsubset).length_le

end
variable (sdk : Sdk)

structure FlatTree where
  tree : Tree
  kind_eq : tree.kind = "tree"
  segments : ∀ path∈tree.entries,∀ seg∈splitPath path,seg ≠ ""

def FlatTree.entries (t : FlatTree) : List (List String × TreeEntry) :=
  t.tree.entries.toList.map fun p => (splitPath p.1,p.2)

def FlatTree.depth (t : FlatTree) : ℕ := (t.entries.map fun p => p.1.length).foldl max 0
def FlatTree.bodies (t : FlatTree) : List Bytes := bucketBodies sdk t.depth t.entries

theorem mem_flatEntries (t : FlatTree) (p e) :
    (p,e)∈t.entries ↔ ∃ path,t.tree.entries[path]? = some e ∧ p=splitPath path := by
  simp only [FlatTree.entries,mem_map,Prod.exists,Prod.mk.injEq]
  constructor
  · rintro ⟨path,e',hmem,rfl,rfl⟩
    exact ⟨path,Std.ExtTreeMap.mem_toList_iff_getElem?_eq_some.mp hmem,rfl⟩
  · rintro ⟨path,hget,rfl⟩
    exact ⟨path,e,Std.ExtTreeMap.mem_toList_iff_getElem?_eq_some.mpr hget,rfl,rfl⟩

theorem flat_segments {t : FlatTree} {path e} (h : t.tree.entries[path]? = some e) :
    ∀ seg∈splitPath path,seg ≠ "" := by
  apply t.segments path
  rw [Std.ExtTreeMap.mem_iff_isSome_getElem?,h]
  rfl

theorem foldl_max_ge (l : List ℕ) (a : ℕ) : a≤l.foldl max a ∧ ∀ x∈l,x≤l.foldl max a := by
  induction l generalizing a with
  | nil => simp
  | cons b l ih =>
    obtain ⟨hinit,hall⟩ := ih (max a b)
    simp only [foldl_cons]
    refine ⟨(Nat.le_max_left a b).trans hinit,?_⟩
    intro x hx
    rcases mem_cons.mp hx with rfl | hx
    · exact (Nat.le_max_right a x).trans hinit
    · exact hall x hx

theorem foldl_max_mem (l : List ℕ) (a : ℕ) : l.foldl max a=a ∨ l.foldl max a∈l := by
  induction l generalizing a with
  | nil => simp
  | cons b l ih =>
    simp only [foldl_cons]
    rcases ih (max a b) with h | h
    · rw [h]
      rcases Nat.le_total a b with hab | hab
      · exact .inr (by simp [Nat.max_eq_right hab])
      · exact .inl (Nat.max_eq_left hab)
    · exact .inr (.tail _ h)

theorem flat_length_le (t : FlatTree) (p : List String) (e : TreeEntry) (h : (p,e)∈t.entries) :
    p.length≤t.depth := by
  apply (foldl_max_ge _ 0).2
  exact mem_map.mpr ⟨(p,e),h,rfl⟩

theorem flat_isBucket (t : FlatTree) : IsBucket t.depth t.entries := by
  constructor
  · intro p e hmem
    refine ⟨?_,flat_length_le t p e hmem⟩
    obtain ⟨path,hget,rfl⟩ := (mem_flatEntries t p e).mp hmem
    exact isPath_splitPath (flat_segments hget)
  · intro p e e' hmem hmem'
    obtain ⟨path,hget,rfl⟩ := (mem_flatEntries t p e).mp hmem
    obtain ⟨path',hget',hsplit⟩ := (mem_flatEntries t _ e').mp hmem'
    have hpath : path=path' := by
      rw [← joinPath_splitPath (flat_segments hget),
        ← joinPath_splitPath (flat_segments hget'),hsplit]
    rw [hpath,hget'] at hget
    exact (Option.some.inj hget).symm

theorem flat_depth_reached (t : FlatTree) (h : t.depth≠0) :
    ∃ p e,(p,e)∈t.entries ∧ p.length=t.depth := by
  rcases foldl_max_mem (t.entries.map fun p => p.1.length) 0 with hzero | hmem
  · exact absurd hzero h
  · obtain ⟨⟨p,e⟩,hin,hlen⟩ := mem_map.mp hmem
    exact ⟨p,e,hin,hlen⟩

theorem writeTree_run (hencrypts : Encrypts sdk) (t : FlatTree) (s : Store) :
    ∃ s',writeTree sdk t.tree s=some (.ok (bucketId sdk t.depth t.entries),s') ∧
      Wrote sdk (t.bodies sdk) s s' :=
  writeTreeBucket_run sdk hencrypts t.depth t.entries s

theorem stored_of_wrote {bodies s s'} (hdistinct : DistinctAddresses sdk bodies)
    (h : Wrote sdk bodies s s') : Holds sdk s' bodies := by
  intro b hb
  obtain ⟨b',hb',haddr,env,henc,hget⟩ := h.there b hb
  exact ⟨env,hdistinct hb' hb haddr ▸ henc,hget⟩

theorem readTree_written (hjson : TreeJson sdk) (t : FlatTree) (s' : Store)
    (hreads : Reads sdk s' (t.bodies sdk)) :
    s'.readTree sdk (bucketId sdk t.depth t.entries)=some (.ok t.tree) := by
  have hb:=flat_isBucket t
  have hread:=read_bucket sdk hb hreads
  have hsize : t.depth ≤ s'.objects.size := by
    by_cases hzero : t.depth=0
    · omega
    · exact depth_le_size sdk hjson hb hreads (flat_length_le t) (flat_depth_reached t hzero)
  obtain ⟨out,hout,hadds⟩ := readSubtree_adds sdk hjson s' (s'.objects.size+1) t.depth
    t.entries hb (fun h => absurd h (Nat.succ_ne_zero _)) (by omega) hreads "" ∅
  have hentries : out=t.tree.entries := by
    apply Std.ExtTreeMap.ext_getElem?
    intro path
    rcases hget : t.tree.entries[path]? with - | e
    · have hnone:=hadds.other path fun p e hin hkey => by
        obtain ⟨path',hget',rfl⟩ := (mem_flatEntries t p e).mp hin
        rw [joinPath_splitPath (flat_segments hget')] at hkey
        rw [hkey,hget] at hget'
        cases hget'
      rw [hnone]
      rfl
    · have hthere:=hadds.there (splitPath path) e ((mem_flatEntries t _ e).mpr ⟨path,hget,rfl⟩)
      rwa [joinPath_splitPath (flat_segments hget)] at hthere
  have htree : ({ Tree.new with entries := out } : Tree)=t.tree := by
    rw [hentries]
    have hkind:=t.kind_eq
    cases htree : t.tree with
    | mk kind entries =>
      rw [htree] at hkind
      simp only at hkind
      rw [hkind]
      rfl
  unfold treeBody at hread
  simp only [readSubtree,hread,hjson.parses] at hout
  simp only [readTree,hread,hjson.version,hjson.parses,if_true,hout,Option.map_some,
    Except.map,htree]

theorem readTree_fits (hcodec : TreeCodec sdk) {t : FlatTree} {s : Store}
    (hholds : Holds sdk s (t.bodies sdk)) {tree}
    (h : s.readTree sdk (bucketId sdk t.depth t.entries)=some (.ok tree)) :
    ∀ b∈t.bodies sdk,Fits sdk b := by
  have hb:=flat_isBucket t
  have hmem:=bucketBody_mem sdk t.depth t.entries
  rcases hread : s.read sdk (bucketId sdk t.depth t.entries) with e | bytes
  · simp [readTree,hread] at h
  obtain ⟨-,rfl⟩ := fits_of_read sdk hcodec hholds hmem hread
  rw [bucketBody_eq sdk hb,treeBody] at hread
  simp only [readTree,hread,hcodec.version,hcodec.parses,if_true,Option.map_eq_some_iff] at h
  obtain ⟨r,hrows,hr⟩ := h
  obtain ⟨out,rfl,-⟩ := map_eq_ok hr
  refine readSubtree_fits sdk hcodec s (s.objects.size+1) t.depth t.entries hb hholds "" ∅ out ?_
  simp only [readSubtree,hread,hcodec.parses,hrows]

/-- The same tree objects in envelopes that are not limited. -/
def unlimited : Sdk := { sdk with encrypt := .ok, decrypt := .ok }

theorem bucketBody_unlimited (depth entries) :
    bucketBody (unlimited sdk) depth entries=bucketBody sdk depth entries := by
  induction depth generalizing entries with
  | zero => rfl
  | succ depth ih =>
    simp only [bucketBody,ih]
    rfl

theorem bucketBodies_unlimited (depth entries) :
    bucketBodies (unlimited sdk) depth entries=bucketBodies sdk depth entries := by
  induction depth generalizing entries with
  | zero => rfl
  | succ depth ih => simp only [bucketBodies,ih,bucketBody_unlimited]

theorem bucketId_inj (hjson : TreeJson sdk) {t t' : FlatTree}
    (hdistinct : DistinctAddresses sdk (t.bodies sdk++t'.bodies sdk))
    (h : bucketId sdk t.depth t.entries=bucketId sdk t'.depth t'.entries) : t.tree=t'.tree := by
  have hjson' : TreeJson (unlimited sdk) := ⟨hjson.parses,hjson.version⟩
  have hencrypts : Encrypts (unlimited sdk) := fun body => ⟨body,rfl⟩
  -- a store that holds both trees reads each id as its tree
  obtain ⟨s,-,hwrote⟩ := writeTree_run (unlimited sdk) hencrypts t Store.empty
  obtain ⟨s',-,hwrote'⟩ := writeTree_run (unlimited sdk) hencrypts t' s
  have hdistinct' : DistinctAddresses (unlimited sdk)
      (t.bodies (unlimited sdk)++t'.bodies (unlimited sdk)) := by
    simp only [FlatTree.bodies,bucketBodies_unlimited]
    exact hdistinct
  have hreads : Reads (unlimited sdk) s' (t.bodies (unlimited sdk)++t'.bodies (unlimited sdk)) := by
    intro b hb
    obtain ⟨env,henc,hget⟩ := stored_of_wrote (unlimited sdk) hdistinct'
      (wrote_append (unlimited sdk) hwrote hwrote') b hb
    rw [read_eq_decrypt (unlimited sdk) hget]
    exact henc.symm
  have hread:=readTree_written (unlimited sdk) hjson' t s' fun b hb =>
    hreads b (mem_append_left _ hb)
  have hread':=readTree_written (unlimited sdk) hjson' t' s' fun b hb =>
    hreads b (mem_append_right _ hb)
  have hid : bucketId (unlimited sdk) t.depth t.entries=
      bucketId (unlimited sdk) t'.depth t'.entries := by
    simp only [bucketId,bucketBody_unlimited]
    exact h
  rw [hid,hread',Option.some.injEq,Except.ok.injEq] at hread
  exact hread.symm

theorem writeTree_faithful_iff (hcodec : TreeCodec sdk) :
    (∀ (t : FlatTree) (s : Store),DistinctAddresses sdk (t.bodies sdk) →
      ∃ id s',writeTree sdk t.tree s=some (.ok id,s') ∧
        (s'.readTree sdk id=some (.ok t.tree) ↔ ∀ b∈t.bodies sdk,Fits sdk b)) ∧
    ∀ (t t' : FlatTree) (s s' u u' : Store) (id id' : ObjectId),
      DistinctAddresses sdk (t.bodies sdk++t'.bodies sdk) →
      writeTree sdk t.tree s=some (.ok id,u) → writeTree sdk t'.tree s'=some (.ok id',u') →
      (id=id' ↔ t.tree=t'.tree) := by
  constructor
  · intro t s hdistinct
    obtain ⟨s',hrun,hwrote⟩ := writeTree_run sdk hcodec.encrypts t s
    have hholds:=stored_of_wrote sdk hdistinct hwrote
    refine ⟨_,s',hrun,fun hread => readTree_fits sdk hcodec hholds hread,fun hfits => ?_⟩
    exact readTree_written sdk hcodec.toTreeJson t s' (reads_of_fit sdk hcodec hholds hfits)
  · intro t t' s s' u u' id id' hdistinct hrun hrun'
    obtain ⟨v,hv,-⟩ := writeTree_run sdk hcodec.encrypts t s
    obtain ⟨v',hv',-⟩ := writeTree_run sdk hcodec.encrypts t' s'
    rw [hv,Option.some.injEq,Prod.mk.injEq,Except.ok.injEq] at hrun
    rw [hv',Option.some.injEq,Prod.mk.injEq,Except.ok.injEq] at hrun'
    rw [← hrun.1,← hrun'.1]
    constructor
    · exact bucketId_inj sdk hcodec.toTreeJson hdistinct
    · intro htree
      simp only [FlatTree.depth,FlatTree.entries,htree]

namespace Sample

/-- The plain instance with the limit of envelopes. -/
def limitedSdk : Sdk :=
  { Sample.sdk with
    decrypt := fun env =>
      if maxEnvelopeLen<env.length then
        .error s!"envelope payload too large ({env.length-48} bytes, max 1073741824)"
      else .ok env }

theorem treeCodec : TreeCodec limitedSdk where
  parses obj := by simp [limitedSdk,Sample.sdk,parseTyped,Wire.parse_put]
  version obj := by simp [limitedSdk,Sample.sdk,parseTyped,Wire.parse_put,Except.map]
  encrypts body := ⟨body,rfl⟩
  opens body env henc hlen := by
    cases henc
    exact if_neg (Nat.not_lt.mpr hlen)
  refuses env hlen := ⟨_,if_pos hlen⟩

def clashEntries : Std.ExtTreeMap String TreeEntry compare :=
  Std.ExtTreeMap.ofList [("a",⟨.file,1⟩),("a/b",⟨.file,2⟩)] compare

theorem clashEntries_segments : ∀ path∈clashEntries,∀ seg∈splitPath path,seg ≠ "" := by
  intro path hpath
  simp only [clashEntries,Std.ExtTreeMap.mem_ofList,map_cons,map_nil,
    contains_iff_mem,mem_cons,not_mem_nil,or_false] at hpath
  rcases hpath with rfl | rfl <;> decide +kernel

def clash : FlatTree := ⟨⟨"tree",clashEntries⟩,rfl,clashEntries_segments⟩

theorem clash_bodies : ((clash.bodies limitedSdk).all fun b => (b.length ≤ maxEnvelopeLen)&&
    (clash.bodies limitedSdk).all fun b' =>
      treeBodyAddress limitedSdk b != treeBodyAddress limitedSdk b'||b==b')=true := by
  decide +kernel

theorem clash_distinct : DistinctAddresses limitedSdk (clash.bodies limitedSdk) := by
  intro b hb b' hb' haddr
  have hpair:=all_eq_true.mp (Bool.and_eq_true_iff.mp (all_eq_true.mp clash_bodies b hb)).2 b' hb'
  simpa [haddr] using hpair

theorem clash_fits : ∀ b∈clash.bodies limitedSdk,Fits limitedSdk b := by
  intro b hb env henc
  cases henc
  exact of_decide_eq_true (Bool.and_eq_true_iff.mp (all_eq_true.mp clash_bodies b hb)).1

def longName (n : ℕ) : String := String.ofList (replicate (n+1) 'a')

variable (n : ℕ)

theorem longName_isPath : IsPath [longName n] := by
  refine ⟨cons_ne_nil _ _,fun seg hseg => ?_⟩
  rw [mem_singleton.mp hseg,longName,String.toList_ofList]
  refine ⟨fun hnil => ?_,fun hslash => ?_⟩
  · have hlist:=congrArg String.toList hnil
    rw [String.toList_ofList,replicate_succ] at hlist
    exact cons_ne_nil _ _ hlist
  · exact absurd (eq_of_mem_replicate hslash) (by decide)

theorem splitPath_longName : splitPath (longName n)=[longName n] := by
  have hsplit:=splitPath_joinPath (longName_isPath n)
  simpa [joinPath,joinStep] using hsplit

/-- One file with a name of `n+1` characters. -/
def longTree : FlatTree where
  tree := ⟨"tree",(∅ : Entries).insert (longName n) ⟨.file,1⟩⟩
  kind_eq := rfl
  segments path hpath := by
    have hname : longName n=path := by simpa using hpath
    rw [← hname,splitPath_longName]
    exact fun seg hseg => ((longName_isPath n).segments seg hseg).1

theorem mem_longTree (p e) : (p,e)∈(longTree n).entries ↔ p=[longName n] ∧ e=⟨.file,1⟩ := by
  rw [mem_flatEntries]
  constructor
  · rintro ⟨path,hget,rfl⟩
    simp only [longTree,Std.ExtTreeMap.getElem?_insert,Std.LawfulEqCmp.compare_eq_iff_eq] at hget
    split_ifs at hget with hpath
    · rw [← hpath,splitPath_longName]
      exact ⟨rfl,(Option.some.inj hget).symm⟩
    · simp at hget
  · rintro ⟨rfl,rfl⟩
    exact ⟨longName n,by simp [longTree],(splitPath_longName n).symm⟩

theorem longTree_bodies (sdk : Sdk) : (longTree n).bodies sdk=
    [bucketBody sdk (longTree n).depth (longTree n).entries] := by
  have hsubs : subNames (longTree n).entries=[] := by
    refine eq_nil_iff_forall_not_mem.mpr fun name hname => ?_
    obtain ⟨q,e,hq⟩ := (mem_subNames _ name).mp hname
    obtain ⟨hne,hmem⟩ := (mem_subEntries _ name q e).mp hq
    exact hne (cons.inj ((mem_longTree n _ e).mp hmem).1).2
  rw [FlatTree.bodies]
  cases (longTree n).depth with
  | zero => rfl
  | succ depth => rw [bucketBodies,hsubs,flatMap_nil]

theorem length_le_treeObjectJson (obj : TreeObject) {row} (hrow : row∈obj.entries) :
    row.1.length≤(limitedSdk.treeObjectJson obj).length := by
  have hname : row.1.length≤(Wire.text.put row.1).length := by
    simp only [Wire.text,Wire.map,Wire.list,Wire.nat,length_append,length_replicate,
      String.length_toList]
    omega
  have hput : (Wire.text.put row.1).length≤(obj.entries.flatMap
      (Wire.text.pair (Wire.text.pair Wire.text)).put).length := by
    rw [length_flatMap]
    refine le_trans ?_ (single_le_sum (by simp) _ (mem_map_of_mem hrow))
    simp [Wire.pair]
  simp only [limitedSdk,Sample.sdk,treeObjectWire,Wire.map,Wire.pair,Wire.list,length_cons,
    length_append] at hname hput ⊢
  omega

theorem longTree_body_long :
    n<(bucketBody limitedSdk (longTree n).depth (longTree n).entries).length := by
  have hleaf : (longName n,FileMode.file.asStr,hex 1)∈
      bucketRows limitedSdk (longTree n).depth (longTree n).entries :=
    mem_append_right _
      ((mem_leafRows _ _).mpr ⟨longName n,_,(mem_longTree n _ _).mpr ⟨rfl,rfl⟩,rfl⟩)
  rw [bucketBody_eq limitedSdk (flat_isBucket (longTree n)),treeBody]
  refine lt_of_lt_of_le ?_ (length_le_treeObjectJson ⟨2,_⟩
    ((perm_insertionSort _ _).mem_iff.mpr hleaf))
  rw [longName,String.length_ofList,length_replicate]
  exact n.lt_succ_self

end Sample
open Sample

theorem clash_written_and_read : ∃ id s',
    writeTree limitedSdk clash.tree Store.empty=some (.ok id,s') ∧
      s'.readTree limitedSdk id=some (.ok clash.tree) := by
  obtain ⟨id,s',hrun,hread⟩ := (writeTree_faithful_iff limitedSdk treeCodec).1 clash Store.empty
    clash_distinct
  exact ⟨id,s',hrun,hread.mpr clash_fits⟩

/-- A directory object that is larger than an envelope may be is written, and refused
when the tree is read. -/
theorem longTree_written_not_read : ∃ t : FlatTree,TreeCodec limitedSdk ∧
    DistinctAddresses limitedSdk (t.bodies limitedSdk) ∧
    ∃ id s',writeTree limitedSdk t.tree Store.empty=some (.ok id,s') ∧
      s'.readTree limitedSdk id≠some (.ok t.tree) := by
  have hdistinct : DistinctAddresses limitedSdk ((longTree maxEnvelopeLen).bodies limitedSdk) := by
    rw [longTree_bodies]
    intro b hb b' hb' _
    rw [mem_singleton.mp hb,mem_singleton.mp hb']
  obtain ⟨s',hrun,hwrote⟩ := writeTree_run limitedSdk treeCodec.encrypts (longTree maxEnvelopeLen)
    Store.empty
  refine ⟨longTree maxEnvelopeLen,treeCodec,hdistinct,_,s',hrun,fun hread => ?_⟩
  have hfits:=readTree_fits limitedSdk treeCodec (stored_of_wrote limitedSdk hdistinct hwrote) hread
    _ (bucketBody_mem limitedSdk _ _) _ rfl
  exact absurd (longTree_body_long maxEnvelopeLen) (Nat.not_lt.mpr hfits)

end OriginTools.Vcs
