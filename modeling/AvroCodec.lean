import AvroCodec.Go.Basic
import AvroCodec.Go.Float
import AvroCodec.Go.Time
import AvroCodec.Go.Big
import AvroCodec.Wire
import AvroCodec.Schema
import AvroCodec.Native.Resolve
import AvroCodec.Native.Agree
import AvroCodec.Native.Time
import AvroCodec.Native.Decimal
import AvroCodec.Native.Codec
import AvroCodec.Native.RoundTrip
import AvroCodec.Registry.Client
import AvroCodec.Registry.Cache
import AvroCodec.Registry.Concurrent
