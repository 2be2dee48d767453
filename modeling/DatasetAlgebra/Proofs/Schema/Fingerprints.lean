import DatasetAlgebra.Proofs.Schema.Merging

/-!
Fingerprints tell schemas apart. The bytes of a column carry the length of its name in front, so
no other column begins with them, whatever the characters of the names; the columns can be read off
the bytes of a schema one by one, in the order of their names. Schemas whose digests do not collide
are therefore equal just if they have the same columns.
-/
namespace DatasetAlgebra

theorem length_littleEndian (count n : Nat) : (littleEndian count n).length = count := by
  induction count generalizing n with
  | zero => rfl
  | succ count ih => simp [littleEndian, ih]

theorem littleEndian_inj {count m n : Nat} (hm : m < 256 ^ count) (hn : n < 256 ^ count)
    (h : littleEndian count m = littleEndian count n) : m = n := by
  induction count generalizing m n with
  | zero => omega
  | succ count ih =>
    rw [littleEndian, littleEndian, List.cons.injEq] at h
    have hlow : m % 256 = n % 256 := congrArg UInt8.toNat h.1
    have hhigh : m / 256 = n / 256 := by
      apply ih _ _ h.2 <;> exact Nat.div_lt_of_lt_mul (by rwa [← Nat.pow_succ'])
    omega

theorem Role.mark_inj {r s : Role} : UInt8.ofNat r.rank = UInt8.ofNat s.rank → r = s := by
  cases r <;> cases s <;> decide

theorem ValueType.mark_inj {s t : ValueType} : UInt8.ofNat s.rank = UInt8.ofNat t.rank → s = t := by
  cases s <;> cases t <;> decide

/-- Up to 64 bytes are one block, and its digest that of the whole. -/
theorem blake3_of_length_le {bytes : List UInt8} (h : bytes.length ≤ 64) : Digest.blake3 bytes =
    (Blake3.chunkFrom 0 Blake3.initial Blake3.chunkStart [bytes]).digest := by
  have hpieces {size : Nat} (hsize : 64 ≤ size) : Blake3.pieces size bytes = [bytes] := by
    rw [Blake3.pieces, dif_pos (.inl (h.trans hsize))]
  simp [Digest.blake3, hpieces, Blake3.root, Blake3.join, Blake3.chunk]

namespace Column

variable {c d : Column}

/-- A name whose length fits the eight bytes that stand in front of it. -/
def ShortName (c : Column) : Prop := c.name.utf8ByteSize < 2 ^ 64

/-- The bytes of a column tell where they end and which column they are of. -/
theorem fingerprintBytes_append_inj (hc : c.ShortName) (hd : d.ShortName) {rest rest' : List UInt8}
    (h : c.fingerprintBytes ++ rest = d.fingerprintBytes ++ rest') : c = d ∧ rest = rest' := by
  simp only [fingerprintBytes, List.append_assoc] at h
  obtain ⟨hlengths, h⟩ := List.append_inj h (by simp only [length_littleEndian])
  obtain ⟨hnames, h⟩ := List.append_inj h (littleEndian_inj hc hd hlengths)
  obtain ⟨hmarks, hrest⟩ := List.append_inj h rfl
  simp only [List.cons.injEq, and_true] at hmarks
  have hname : c.name = d.name :=
    String.toByteArray_inj.mp (ByteArray.ext (Array.toList_inj.mp hnames))
  have hrole : c.role = d.role := Role.mark_inj hmarks.1
  have htype : c.type = d.type := ValueType.mark_inj hmarks.2
  refine ⟨?_, hrest⟩
  cases c
  cases d
  simp_all

theorem flatMap_fingerprintBytes_inj {cs ds : List Column} (hcs : ∀ c ∈ cs, c.ShortName)
    (hds : ∀ d ∈ ds, d.ShortName)
    (h : cs.flatMap fingerprintBytes = ds.flatMap fingerprintBytes) : cs = ds := by
  induction cs generalizing ds with
  | nil =>
    cases ds with
    | nil => rfl
    | cons d ds => simp [fingerprintBytes] at h
  | cons c cs ih =>
    cases ds with
    | nil => simp [fingerprintBytes] at h
    | cons d ds =>
      rw [List.flatMap_cons, List.flatMap_cons] at h
      rw [List.forall_mem_cons] at hcs hds
      obtain ⟨rfl, hrest⟩ := fingerprintBytes_append_inj hcs.1 hds.1 h
      rw [ih hcs.2 hds.2 hrest]

end Column

namespace Schema

variable {s t : Schema}

theorem mem_byName {c : Column} : c ∈ s.byName ↔ c ∈ s.columns := List.mem_mergeSort

theorem fingerprintBytes_eq_iff (hs : ∀ c ∈ s.columns, c.ShortName)
    (ht : ∀ c ∈ t.columns, c.ShortName) :
    s.fingerprintBytes = t.fingerprintBytes ↔ ∀ c, c ∈ s.columns ↔ c ∈ t.columns := by
  refine ⟨fun h c => ?_, fingerprintBytes_of_columns⟩
  obtain ⟨-, h⟩ := List.append_inj h (by simp only [length_littleEndian])
  have hbyName : s.byName = t.byName := Column.flatMap_fingerprintBytes_inj
    (fun c hc => hs c (mem_byName.mp hc)) (fun c hc => ht c (mem_byName.mp hc)) h
  rw [← mem_byName, hbyName, mem_byName]

/-- Schemas of different columns that share a fingerprint all the same. -/
def Collides (s t : Schema) : Prop :=
  s.fingerprint = t.fingerprint ∧ ¬∀ c, c ∈ s.columns ↔ c ∈ t.columns

theorem Collides.symm (h : s.Collides t) : t.Collides s :=
  ⟨h.1.symm, fun hcolumns => h.2 fun c => (hcolumns c).symm⟩

theorem not_collides_of_columns (h : ∀ c, c ∈ s.columns ↔ c ∈ t.columns) : ¬s.Collides t :=
  fun hc => hc.2 h

theorem not_collides_of_digests (hs : ∀ c ∈ s.columns, c.ShortName)
    (ht : ∀ c ∈ t.columns, c.ShortName)
    (hdigests : Digest.blake3 s.fingerprintBytes = Digest.blake3 t.fingerprintBytes →
      s.fingerprintBytes = t.fingerprintBytes) : ¬s.Collides t :=
  fun h => h.2 ((fingerprintBytes_eq_iff hs ht).mp (hdigests h.1))

theorem same_iff_of_not_collides (h : ¬s.Collides t) :
    s.same t ↔ ∀ c, c ∈ s.columns ↔ c ∈ t.columns := by
  refine ⟨fun hsame => ?_, same_of_columns⟩
  rw [Collides, not_and, not_not] at h
  exact h (of_decide_eq_true hsame)

theorem filterMap_column? (s : Schema) : s.names.filterMap s.column? = s.columns := by
  rw [names, List.filterMap_map]
  refine (List.filterMap_congr fun c hc => ?_).trans List.filterMap_some
  exact column?_eq_some_iff.mpr ⟨hc, rfl⟩

theorem columns_eq_of_names (h : ∀ c, c ∈ s.columns ↔ c ∈ t.columns) (hnames : s.names = t.names) :
    s.columns = t.columns := by
  rw [← s.filterMap_column?, ← t.filterMap_column?, hnames]
  exact List.filterMap_congr fun name _ => column?_congr h name

/-- Comparing the names in pairs stops at the end of the shorter list; that both have one length is
left to the fingerprints. -/
theorem sameLayout_iff_of_not_collides (h : ¬s.Collides t) :
    s.sameLayout t ↔ s.columns = t.columns := by
  constructor
  · intro hlayout
    rw [sameLayout, Bool.and_eq_true, same_iff_of_not_collides h] at hlayout
    obtain ⟨hnames, hcolumns⟩ := hlayout
    have hperm : s.columns.Perm t.columns :=
      (List.perm_ext_iff_of_nodup s.distinct.of_map t.distinct.of_map).mpr hcolumns
    have hlength : s.names.length = t.names.length := by simp [names, hperm.length_eq]
    refine columns_eq_of_names hcolumns ?_
    rw [← List.forall₂_eq_eq_eq, List.forall₂_iff_zip]
    refine ⟨hlength, fun hab => ?_⟩
    simpa using List.all_eq_true.mp hnames _ hab
  · intro hcolumns
    obtain rfl := ext_columns hcolumns
    exact s.sameLayout_self

theorem same_of_sameLayout (h : s.sameLayout t) : s.same t := by
  rw [sameLayout, Bool.and_eq_true] at h
  exact h.2

/-- Unless two digests collide, schemas are equal exactly if they have the same columns in any
order, and of one layout exactly if they have them at the same positions. -/
theorem fingerprints_identify {s t : Schema} (hs : ∀ c ∈ s.columns, c.ShortName)
    (ht : ∀ c ∈ t.columns, c.ShortName) :
    (s.fingerprintBytes = t.fingerprintBytes ↔ ∀ c, c ∈ s.columns ↔ c ∈ t.columns) ∧
    ((Digest.blake3 s.fingerprintBytes = Digest.blake3 t.fingerprintBytes →
        s.fingerprintBytes = t.fingerprintBytes) →
      (s.same t ↔ ∀ c, c ∈ s.columns ↔ c ∈ t.columns) ∧
      (s.sameLayout t ↔ s.columns = t.columns)) := by
  refine ⟨fingerprintBytes_eq_iff hs ht, fun hdigests => ?_⟩
  have h := not_collides_of_digests hs ht hdigests
  exact ⟨same_iff_of_not_collides h, sameLayout_iff_of_not_collides h⟩

namespace Sales

def days : Schema := ⟨[⟨"day", .identifier, .string⟩], by decide⟩

/-- The column of `days`, and one more. -/
def sold : Schema := ⟨[⟨"day", .identifier, .string⟩, ⟨"n", .measure, .integer⟩], by decide⟩

/-- The columns of `sold` in another order. -/
def soldBackwards : Schema :=
  ⟨[⟨"n", .measure, .integer⟩, ⟨"day", .identifier, .string⟩], by decide⟩

theorem mem_sold_iff (c : Column) : c ∈ sold.columns ↔ c ∈ soldBackwards.columns := by
  simp only [sold, soldBackwards, List.mem_cons, List.not_mem_nil, or_false]
  exact Or.comm

theorem shortNames : (∀ c ∈ days.columns, c.ShortName) ∧ (∀ c ∈ sold.columns, c.ShortName) ∧
    ∀ c ∈ soldBackwards.columns, c.ShortName := by
  simp only [days, sold, soldBackwards, List.forall_mem_cons, Column.ShortName]
  decide

theorem digests_differ :
    Digest.blake3 days.fingerprintBytes ≠ Digest.blake3 sold.fingerprintBytes := by
  have hdays : days.fingerprintBytes =
      [1, 0, 0, 0, 0, 0, 0, 0, 3, 0, 0, 0, 0, 0, 0, 0, 100, 97, 121, 0, 2] := by
    rw [fingerprintBytes, byName, List.mergeSort_of_pairwise (by decide)]
    decide
  have hsold : sold.fingerprintBytes =
      [2, 0, 0, 0, 0, 0, 0, 0, 3, 0, 0, 0, 0, 0, 0, 0, 100, 97, 121, 0, 2,
        1, 0, 0, 0, 0, 0, 0, 0, 110, 1, 0] := by
    rw [fingerprintBytes, byName, List.mergeSort_of_pairwise (by decide)]
    decide
  rw [hdays, hsold, blake3_of_length_le (by decide), blake3_of_length_le (by decide)]
  decide +kernel

/-- A schema with a column more has the names of the other at the same positions and is of another
layout. With the columns in another order they are equal, but not of one layout. -/
theorem layouts_differ :
    (days.names.zip sold.names).all (fun (a, b) => a = b) ∧
      days.fingerprintBytes ≠ sold.fingerprintBytes ∧ ¬days.same sold ∧ ¬days.sameLayout sold ∧
      sold.same soldBackwards ∧ ¬sold.sameLayout soldBackwards := by
  obtain ⟨hdays, hsold, hbackwards⟩ := shortNames
  have hother : ¬∀ c, c ∈ days.columns ↔ c ∈ sold.columns := fun h =>
    absurd ((h ⟨"n", .measure, .integer⟩).mpr (by decide)) (by decide)
  obtain ⟨hbytes, h⟩ := fingerprints_identify hdays hsold
  obtain ⟨hequal, hlayout⟩ := h fun h => absurd h digests_differ
  obtain ⟨hbytes', h'⟩ := fingerprints_identify hsold hbackwards
  obtain ⟨hequal', hlayout'⟩ := h' fun _ => hbytes'.mpr mem_sold_iff
  exact ⟨by decide, mt hbytes.mp hother, mt hequal.mp hother, mt hlayout.mp (by decide),
    hequal'.mpr mem_sold_iff, mt hlayout'.mp (by decide)⟩

end Sales
end Schema
end DatasetAlgebra
