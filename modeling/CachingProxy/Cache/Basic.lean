import CachingProxy.Cpp.Linked
import CachingProxy.Cpp.Text
import CachingProxy.Recency
import CachingProxy.Runs

/-! The store of cache.hpp and cache.cpp: three containers, one with iterators into another.
Every function is the body the source runs under its lock. A result none stands for
undefined behaviour, that is for an erase through an iterator that is not the key's own node. -/
namespace CachingProxy
open Cpp Recency

/-- Time points count nanoseconds from the epoch, which is also the default time point. -/
structure CacheEntry where
  data : Bytes
  response_line : Bytes
  headers : Finmap (fun _ : Bytes => Bytes)
  creation_time : Int
  expires_time : Int
  requires_validation : Bool
  etag : Bytes
  last_modified : Bytes
  deriving DecidableEq

/-- What operator[] puts under a key it does not find. -/
def CacheEntry.default : CacheEntry := ⟨[], [], ∅, 0, 0, false, [], []⟩

def CacheEntry.isExpired (e : CacheEntry) (now : Int) : Bool :=
  e.requires_validation || (e.expires_time != 0 && decide (now > e.expires_time))

structure Cache where
  cache_map_ : Finmap (fun _ : Bytes => CacheEntry)
  access_order_ : Linked Bytes
  key_to_iterator_ : Finmap (fun _ : Bytes => Nat)
  max_entries_ : Nat

namespace Cache

def new (max_entries : Nat) : Cache := ⟨∅, Linked.empty, ∅, max_entries⟩

/-- access_order_.erase(it) on behalf of `key`. -/
def eraseNode (c : Cache) (key : Bytes) (it : Nat) : Option Cache :=
  if c.access_order_.deref it = some key then
    some { c with access_order_ := c.access_order_.erase it }
  else none

/-- The key evictOldest would take, when there is one. -/
def oldest_key (c : Cache) : Option Bytes := c.access_order_.back

def evictOldest (c : Cache) : Cache :=
  match c.oldest_key with
  | none => c
  | some oldest_key =>
    { c with
      access_order_ := c.access_order_.pop_back
      cache_map_ := c.cache_map_.erase oldest_key
      key_to_iterator_ := c.key_to_iterator_.erase oldest_key }

/-- The second half of updateAccessOrder: push_front and the new iterator. -/
def pushFront (c : Cache) (key : Bytes) : Cache :=
  let access_order_ := c.access_order_.push_front key
  { c with
    access_order_ := access_order_
    key_to_iterator_ := c.key_to_iterator_.insert key access_order_.begin }

def updateAccessOrder (c : Cache) (key : Bytes) : Option Cache :=
  match c.key_to_iterator_.lookup key with
  | some it => (c.eraseNode key it).map (fun c => c.pushFront key)
  | none => some (c.pushFront key)

def get (c : Cache) (key : Bytes) : Option CacheEntry := c.cache_map_.lookup key

def size (c : Cache) : Nat := c.cache_map_.keys.card

/-- cache_map_[key] = value -/
def assign (c : Cache) (key : Bytes) (value : CacheEntry) : Cache :=
  { c with cache_map_ := c.cache_map_.insert key value }

def makeRoom (c : Cache) : Cache := if c.size ≥ c.max_entries_ then c.evictOldest else c

def put (c : Cache) (key : Bytes) (value : CacheEntry) : Option Cache :=
  (c.makeRoom.assign key value).updateAccessOrder key

def remove (c : Cache) (key : Bytes) : Option Cache :=
  if key ∈ c.cache_map_ then
    let c := { c with cache_map_ := c.cache_map_.erase key }
    match c.key_to_iterator_.lookup key with
    | some order_it =>
      (c.eraseNode key order_it).map
        (fun c => { c with key_to_iterator_ := c.key_to_iterator_.erase key })
    | none => some c
  else some c

def clear (c : Cache) : Cache :=
  { c with cache_map_ := ∅, access_order_ := c.access_order_.clear, key_to_iterator_ := ∅ }

def isValid (c : Cache) (key : Bytes) (now : Int) : Bool :=
  match c.get key with
  | none => false
  | some entry => !entry.isExpired now

/-- One public call; isValid is a get with a test of its copy. -/
def call (c : Cache) : Call Bytes CacheEntry → Option (Cache × Answer CacheEntry)
  | .put key value => (c.put key value).map (·, .done)
  | .get key => some (c, .found (c.get key))
  | .remove key => (c.remove key).map (·, .done)
  | .clear => some (c.clear, .done)
  | .size => some (c, .count c.size)

def run (c : Cache) : List (Call Bytes CacheEntry) → Option (Cache × List (Answer CacheEntry))
  | [] => some (c, [])
  | x :: xs => do
    let (c, a) ← c.call x
    let (c, as) ← c.run xs
    some (c, a :: as)

inductive Op where
  | call (x : Call Bytes CacheEntry)
  | isValid (key : Bytes) (now : Int)

def exec (c : Cache) : Op → Option Cache
  | .call x => (c.call x).map Prod.fst
  | .isValid _ _ => some c

def execAll (c : Cache) (ops : List Op) : Option Cache := Runs.run exec c ops

/-- The key put would evict in this state. -/
def evicted (c : Cache) : Option Bytes := if c.size ≥ c.max_entries_ then c.oldest_key else none

end Cache

end CachingProxy
