import CachingProxy.Cache.Concurrent
import CachingProxy.Cache.Eviction
import CachingProxy.Descriptors
import CachingProxy.Representation
import CachingProxy.Freshness
import CachingProxy.Keys
import CachingProxy.Delivery
import CachingProxy.Admission
import CachingProxy.Replay
import CachingProxy.Destination
import CachingProxy.Overtaking
import CachingProxy.Tunnel
import CachingProxy.Port
import CachingProxy.Ending
import CachingProxy.Boundary
import CachingProxy.Arrangement
import CachingProxy.Serving
import CachingProxy.Spelling
import CachingProxy.Resent
import CachingProxy.Cache.Progress
import CachingProxy.Threads
import CachingProxy.Coherence
import CachingProxy.Holders
import CachingProxy.Audit
import CachingProxy.Returning
